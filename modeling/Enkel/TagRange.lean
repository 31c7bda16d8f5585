import Enkel.MemoryState

/-!
Well-formed page-state trees and the effect of TagRange on them. In a
well-formed tree every leaf ends at its recorded address, every branch divides
its range at an aligned address and caches the sum and the maximum of the free
leaves below it, and no two sibling leaves have the same state. Tagging keeps
this and acts on the page states as the abstract page map does: Reserved pages
stay Reserved, the other pages of the range take the new state.
-/
namespace Enkel.MemoryState

open Outcome

/-- The abstract model: the state of every page, and the effect of one tag. -/
def tagged (pages : ℕ → RangeState) (low high : ℕ) (state : RangeState) : ℕ → RangeState :=
  fun p => if low ≤ p ∧ p < high ∧ pages p ≠ .reserved then state else pages p

/-- Number of free bytes below a node with the given outer bounds. -/
def freeBytes : StateNode → ℕ → ℕ → ℕ
  | .leaf _ _ .free, low, high => high - low
  | .leaf _ _ _, _, _ => 0
  | .branch _ address left right _ _, low, high =>
    freeBytes left low address + freeBytes right address high

/-- Size of the largest free leaf below a node with the given outer bounds. -/
def largestLeaf : StateNode → ℕ → ℕ → ℕ
  | .leaf _ _ .free, low, high => high - low
  | .leaf _ _ _, _, _ => 0
  | .branch _ address left right _ _, low, high =>
    max (largestLeaf left low address) (largestLeaf right address high)

/-- The shape that TagRange relies on and keeps. -/
def WellFormed : StateNode → ℕ → ℕ → Prop
  | .leaf _ address _, low, high => low < high ∧ address = high
  | .branch _ address left right remaining largest, low, high =>
    Aligned address ∧ WellFormed left low address ∧ WellFormed right address high ∧
      ¬ mergeable left right ∧
      remaining = freeBytes left low address + freeBytes right address high ∧
      largest = max (largestLeaf left low address) (largestLeaf right address high)

/-- The ranges that TagRange accepts below a node. -/
def ValidRange (low high outerLow outerHigh : ℕ) : Prop :=
  outerLow ≤ low ∧ low < high ∧ high ≤ outerHigh ∧ Aligned low ∧ Aligned high

/-- The state that a leaf takes: Reserved is permanent. -/
def target (current state : RangeState) : RangeState :=
  if current ≠ .reserved then state else current

@[simp] theorem target_target (current state : RangeState) :
    target current (target current state) = target current state := by
  cases current <;> simp [target]

theorem WellFormed.lt {node : StateNode} {low high : ℕ} (h : WellFormed node low high) :
    low < high := by
  induction node generalizing low high with
  | leaf node address state => exact h.1
  | branch node address left right remaining largest ihl ihr =>
    have hl := ihl h.2.1
    have hr := ihr h.2.2.1
    omega

theorem freeBytes_le {node : StateNode} {low high : ℕ} (h : WellFormed node low high) :
    freeBytes node low high ≤ high - low := by
  induction node generalizing low high with
  | leaf node address state => cases state <;> simp [freeBytes]
  | branch node address left right remaining largest ihl ihr =>
    have hl := ihl h.2.1
    have hr := ihr h.2.2.1
    have hlt := h.2.1.lt
    have hrt := h.2.2.1.lt
    simp only [freeBytes]
    omega

theorem getLargestFree_eq {node : StateNode} {low high : ℕ} (h : WellFormed node low high)
    (hhigh : high < 2 ^ 48) : getLargestFree node low high = .ok (largestLeaf node low high) := by
  have hlt := h.lt
  cases node with
  | leaf node address state =>
    have hsub : sub64 high low = high - low := sub64_of_le (by omega) (by omega)
    have hpos : high - low > 0 := by omega
    cases state <;> simp [getLargestFree, largestLeaf, hsub, hpos, pure, Except.pure]
  | branch node address left right remaining largest =>
    simp [getLargestFree, largestLeaf, h.2.2.2.2.2]

theorem getRemaining_eq {node : StateNode} {low high : ℕ} (h : WellFormed node low high)
    (hhigh : high < 2 ^ 48) : getRemaining node low high = .ok (freeBytes node low high) := by
  have hlt := h.lt
  cases node with
  | leaf node address state =>
    have hsub : sub64 high low = high - low := sub64_of_le (by omega) (by omega)
    have hpos : high - low > 0 := by omega
    cases state <;> simp [getRemaining, freeBytes, hsub, hpos, pure, Except.pure]
  | branch node address left right remaining largest =>
    simp [getRemaining, freeBytes, h.2.2.2.2.1]

theorem getFreeLeafState_meets (lists : FreeLists) :
    Meets Fault.NodeListEmpty (fun _ => True) lists.getFreeLeafState := by
  unfold FreeLists.getFreeLeafState
  split
  · exact meets_error (Or.inl rfl)
  · exact meets_ok trivial

theorem getFreeBranchState_meets (lists : FreeLists) :
    Meets Fault.NodeListEmpty (fun _ => True) lists.getFreeBranchState := by
  unfold FreeLists.getFreeBranchState
  split
  · exact meets_error (Or.inr rfl)
  · exact meets_ok trivial

theorem getPageStateInternal_of_leafState {node : StateNode} {state : RangeState}
    (h : node.leafState = some state) (p : ℕ) : getPageStateInternal node p = state := by
  cases node with
  | leaf node address current => simpa [StateNode.leafState, getPageStateInternal] using h
  | branch => simp [StateNode.leafState] at h

/-- UpdateNode joins two leaves of one state and otherwise refreshes the caches.
Either way the page states below the branch are those of its children. -/
theorem updateNode_meets (node : NodePtr) {address low high : ℕ} {left right : StateNode}
    (lists : FreeLists) (hleft : WellFormed left low address)
    (hright : WellFormed right address high) (haddress : Aligned address)
    (hhigh : Aligned high) (hlt : high < 2 ^ 48) :
    Meets Fault.NodeListEmpty
      (fun r => WellFormed r.1 low high ∧
        (∀ p, getPageStateInternal r.1 p =
          if p < address then getPageStateInternal left p else getPageStateInternal right p) ∧
        (¬ mergeable left right → r.1.ptr = node ∧ r.1.leafState = none))
      (updateNode node address left right low high lists) := by
  have hl := hleft.lt
  have hr := hright.lt
  have hcache : ¬ mergeable left right → Meets Fault.NodeListEmpty
      (fun r => WellFormed r.1 low high ∧
        (∀ p, getPageStateInternal r.1 p =
          if p < address then getPageStateInternal left p else getPageStateInternal right p) ∧
        (¬ mergeable left right → r.1.ptr = node ∧ r.1.leafState = none))
      (do
        let largestLeft ← getLargestFree left low address
        let largestRight ← getLargestFree right address high
        require (sub64 high low > 0) (.assertion .updateNode "Encountered empty block")
        let remainingLeft ← getRemaining left low address
        let remainingRight ← getRemaining right address high
        let largest := if largestLeft > largestRight then largestLeft else largestRight
        return (.branch node address left right (add64 remainingLeft remainingRight) largest,
          lists)) := by
    intro hmerge
    have hpos : sub64 high low > 0 := by
      rw [sub64_of_le (by omega) (by omega)]
      omega
    have hsum : add64 (freeBytes left low address) (freeBytes right address high) =
        freeBytes left low address + freeBytes right address high := by
      have h1 := freeBytes_le hleft
      have h2 := freeBytes_le hright
      exact add64_of_lt (by omega)
    have hmax : (if largestLeaf left low address > largestLeaf right address high
        then largestLeaf left low address else largestLeaf right address high) =
        max (largestLeaf left low address) (largestLeaf right address high) := by
      rcases Nat.lt_or_ge (largestLeaf right address high) (largestLeaf left low address) with h | h
      · rw [if_pos h, Nat.max_eq_left (by omega)]
      · rw [if_neg (by omega), Nat.max_eq_right h]
    rw [getLargestFree_eq hleft (by omega), getLargestFree_eq hright hlt,
      getRemaining_eq hleft (by omega), getRemaining_eq hright hlt]
    simp only [ok_bind, require_true hpos, hsum, hmax]
    refine meets_pure ⟨⟨haddress, hleft, hright, hmerge, rfl, rfl⟩, ?_, fun _ => ⟨rfl, rfl⟩⟩
    intro p
    rfl
  unfold updateNode
  cases hstate : left.leafState with
  | none =>
    have hmerge : ¬ mergeable left right := by
      intro h
      exact h.1 (h.2 ▸ hstate)
    exact hcache hmerge
  | some state =>
    refine meets_ite ?_ hcache
    intro hmerge
    refine meets_bind (getFreeLeafState_meets lists) ?_
    intro r _
    refine meets_pure ⟨⟨by omega, and_pageMask_of_aligned hhigh hlt⟩, ?_, fun h => absurd hmerge h⟩
    intro p
    have hl' := getPageStateInternal_of_leafState hstate p
    have hr' := getPageStateInternal_of_leafState (hmerge.2 ▸ hstate) p
    rw [hl', hr', ite_self]
    rfl

/-- Faults of a tag: an exhausted node list, or an assertion of TagRangeInternal
when the range is not a valid one. -/
def TagFault (valid : Prop) (e : Fault) : Prop :=
  e.NodeListEmpty ∨ ¬ valid ∧ ∃ message, e = .assertion .tagRangeInternal message

theorem TagFault.of_not_valid {valid : Prop} (h : ¬ valid) (message : String) :
    TagFault valid (.assertion .tagRangeInternal message) := Or.inr ⟨h, message, rfl⟩

theorem TagFault.mono {valid valid' : Prop} (h : valid' → valid) {e : Fault}
    (he : TagFault valid e) : TagFault valid' e := by
  rcases he with he | ⟨hv, message, he⟩
  · exact Or.inl he
  · exact Or.inr ⟨fun hv' => hv (h hv'), message, he⟩

theorem checkBounds_meets {low high outerLow outerHigh : ℕ} (hlt : outerLow < outerHigh)
    (hhigh : outerHigh < 2 ^ 48) :
    Meets (TagFault (ValidRange low high outerLow outerHigh))
      (fun _ => outerLow ≤ low ∧ high ≤ outerHigh)
      (checkBounds low high outerLow outerHigh) := by
  have hpos : sub64 outerHigh outerLow > 0 := by
    rw [sub64_of_le (by omega) (by omega)]
    omega
  unfold checkBounds
  refine meets_require (fun h => absurd hpos h) fun _ => ?_
  refine meets_require (fun h => .of_not_valid (fun hv => h hv.1) _) fun hlow => ?_
  by_cases hh : high ≤ outerHigh
  · rw [require_true hh]
    exact meets_ok ⟨hlow, hh⟩
  · rw [require, if_neg hh]
    exact meets_error (.of_not_valid (fun hv => hh hv.2.2.1) _)

/-- Number of bounds of the range that lie strictly inside a leaf. -/
def innerBounds (low high outerLow outerHigh : ℕ) : ℕ :=
  (if low = outerLow then 0 else 1) + (if high = outerHigh then 0 else 1)

/-- The leaf ends up as a leaf only in the state of the tag. -/
def LeafTagged (current : RangeState) (low high : ℕ) (state : RangeState)
    (outerLow outerHigh : ℕ) (node : StateNode) : Prop :=
  WellFormed node outerLow outerHigh ∧
    (∀ p, outerLow ≤ p → p < outerHigh → getPageStateInternal node p =
      tagged (fun _ => current) low high state p) ∧
    ∀ s, node.leafState = some s → s = target current state

theorem leafTagged_leaf (node : NodePtr) (current state : RangeState)
    {outerLow outerHigh : ℕ} (hlt : outerLow < outerHigh) :
    LeafTagged current outerLow outerHigh state outerLow outerHigh
      (.leaf node outerHigh (target current state)) := by
  refine ⟨⟨hlt, rfl⟩, ?_, fun s hs => ?_⟩
  · intro p hp hp'
    cases current <;> simp [getPageStateInternal, tagged, target, hp, hp']
  · simpa [StateNode.leafState] using hs.symm

/-- The two halves of a split leaf after the tag has gone into one of them. -/
structure SplitTagged (current : RangeState) (low high : ℕ) (state : RangeState)
    (outerLow mid outerHigh : ℕ) (left right : StateNode) : Prop where
  left_wellFormed : WellFormed left outerLow mid
  right_wellFormed : WellFormed right mid outerHigh
  pages : ∀ p, outerLow ≤ p → p < outerHigh →
    (if p < mid then getPageStateInternal left p else getPageStateInternal right p) =
      tagged (fun _ => current) low high state p
  not_mergeable : ¬ mergeable left right

theorem splitTagged_left {current state : RangeState} {high outerLow outerHigh : ℕ}
    {left : StateNode} (newRight : NodePtr) (hlt : high < outerHigh)
    (hne : current ≠ target current state)
    (h : LeafTagged current outerLow high (target current state) outerLow high left) :
    SplitTagged current outerLow high state outerLow high outerHigh left
      (.leaf newRight outerHigh current) := by
  have hres : current ≠ .reserved := by
    intro hc
    simp [target, hc] at hne
  have htarget : target current state = state := if_pos hres
  refine ⟨h.1, ⟨hlt, rfl⟩, ?_, ?_⟩
  · intro p hp hp'
    by_cases hpm : p < high
    · rw [if_pos hpm, h.2.1 p hp hpm, htarget]
    · simp [hpm, tagged, getPageStateInternal]
  · intro hm
    have hs := h.2.2 current hm.2
    rw [target_target] at hs
    exact hne hs

theorem splitTagged_right {current state : RangeState} {low high outerLow outerHigh : ℕ}
    {right : StateNode} (newLeft : NodePtr) (hlt : outerLow < low)
    (hne : current ≠ target current state)
    (h : LeafTagged current low high (target current state) low outerHigh right) :
    SplitTagged current low high state outerLow low outerHigh
      (.leaf newLeft low current) right := by
  have hres : current ≠ .reserved := by
    intro hc
    simp [target, hc] at hne
  have htarget : target current state = state := if_pos hres
  refine ⟨⟨hlt, rfl⟩, h.1, ?_, ?_⟩
  · intro p hp hp'
    by_cases hpm : p < low
    · have hnot : ¬ low ≤ p := by omega
      simp [hpm, tagged, getPageStateInternal, hnot]
    · rw [if_neg hpm, h.2.1 p (by omega) hp', htarget]
  · intro hm
    have hs := h.2.2 current hm.2.symm
    rw [target_target] at hs
    exact hne hs

/-- Tagging a leaf. Every split settles one bound of the range, so the bounds
inside the leaf limit the recursion. -/
theorem tagLeaf_meets (splits : ℕ) (node : NodePtr) (current state : RangeState)
    {low high outerLow outerHigh : ℕ} (lists : FreeLists) (hlt : outerLow < outerHigh)
    (haligned : Aligned outerHigh) (hhigh : outerHigh < 2 ^ 48)
    (hsplits : innerBounds low high outerLow outerHigh ≤ splits) :
    Meets (TagFault (ValidRange low high outerLow outerHigh))
      (fun r => LeafTagged current low high state outerLow outerHigh r.1)
      (tagLeaf splits node outerHigh current low high state outerLow outerHigh lists) := by
  induction splits generalizing node state low high outerLow outerHigh lists with
  | zero =>
    have hlow : low = outerLow := by
      by_contra h
      simp [innerBounds, h] at hsplits
    have hhigh' : high = outerHigh := by
      by_contra h
      simp [innerBounds, h] at hsplits
    subst hlow hhigh'
    unfold tagLeaf
    refine meets_bind (checkBounds_meets hlt hhigh) fun _ _ => ?_
    refine meets_require (fun h => absurd hlt.le h) fun _ => ?_
    refine meets_require (fun h => absurd le_rfl h) fun _ => ?_
    refine meets_ite (fun h => absurd ⟨rfl, rfl⟩ h) fun _ => ?_
    refine meets_require (fun h => absurd (Or.inl rfl) h) fun _ => ?_
    exact meets_pure (leafTagged_leaf node current state hlt)
  | succ splits ih =>
    unfold tagLeaf
    refine meets_bind (checkBounds_meets hlt hhigh) fun _ hbounds => ?_
    refine meets_require (fun h => .of_not_valid (fun hv => h (hv.2.1.le.trans hv.2.2.1)) _)
      fun hlow => ?_
    refine meets_require (fun h => absurd hbounds.2 h) fun _ => ?_
    refine meets_ite (fun hexact => ?_) fun hexact => ?_
    · refine meets_ite (fun hsame => ?_) fun hsame => ?_
      · -- the leaf has the wanted state already
        have hcur : current = target current state := hsame.2.2
        refine meets_pure ⟨⟨hlt, rfl⟩, fun p hp hp' => ?_, fun s hs => ?_⟩
        · have htag : current ≠ .reserved → state = current := fun h => by
            rw [target, if_pos h] at hcur
            exact hcur.symm
          by_cases hc : current = .reserved
          · simp [getPageStateInternal, tagged, hc]
          · simp [getPageStateInternal, tagged, htag hc]
        · simpa [StateNode.leafState, ← hcur] using hs.symm
      · have hne : current ≠ target current state := by
          intro h
          exact hsame ⟨hbounds.1, hbounds.2, h⟩
        have hmax : setAddress outerHigh = outerHigh := and_pageMask_of_aligned haligned hhigh
        generalize hmid : (if low = outerLow then high else low) = mid
        refine meets_bind (meets_mono (getFreeBranchState_meets lists)
          (fun _ he => Or.inl he) fun _ h => h) fun branch _ => ?_
        refine meets_require (fun h => .of_not_valid (fun hv => ?_) _) fun hmidlt => ?_
        · have h1 := hv.1
          have h2 := hv.2.1
          split_ifs at hmid <;> omega
        refine meets_bind (meets_mono (getFreeLeafState_meets branch.2)
          (fun _ he => Or.inl he) fun _ h => h) fun newLeft _ => ?_
        refine meets_require (fun h => .of_not_valid (fun hv => h ?_) _) fun hset => ?_
        · have h3 := hv.2.2
          have halign : Aligned mid := by
            split_ifs at hmid
            · exact hmid ▸ h3.2.2
            · exact hmid ▸ h3.2.1
          have hmlt : mid < 2 ^ 48 := by
            split_ifs at hmid <;> omega
          exact (and_pageMask_of_aligned halign hmlt).symm
        refine meets_require (fun h => absurd (Or.inl rfl) h) fun _ => ?_
        refine meets_bind (meets_mono (getFreeLeafState_meets newLeft.2)
          (fun _ he => Or.inl he) fun _ h => h) fun newRight _ => ?_
        have hmidAligned : Aligned mid := by
          rw [hset]
          exact aligned_and_pageMask mid
        rw [← hset, hmax]
        refine meets_bind (R := fun t => SplitTagged current low high state outerLow mid
          outerHigh t.1 t.2.1) ?_ fun t ht => ?_
        · refine meets_ite (fun hleft => ?_) fun hleft => ?_
          · -- the range begins the leaf: `mid` is its upper bound
            have hlow' : low = outerLow := by
              by_contra h
              rw [if_neg h] at hmid
              omega
            have hmid' : mid = high := by rw [← hmid, if_pos hlow']
            subst hmid' hlow'
            have hlt' : mid < outerHigh := by
              rcases Nat.lt_or_ge mid outerHigh with h | h
              · exact h
              · exact absurd ⟨rfl, le_antisymm hbounds.2 h⟩ hexact
            refine meets_bind (meets_mono (ih newLeft.1 (target current state) _ hmidlt
              hmidAligned (by omega) (by simp [innerBounds]))
              (fun e he => he.mono fun hv => ⟨hv.1, hv.2.1, le_rfl, hv.2.2.2⟩)
              fun _ h => h) fun r hr => ?_
            exact meets_pure (splitTagged_left newRight.1 hlt' hne hr)
          · refine meets_ite (fun hright => ?_) fun hright => ?_
            · -- the range starts inside the leaf: `mid` is its lower bound
              have hlow' : low ≠ outerLow := by
                intro h
                rw [if_pos h] at hmid
                omega
              have hmid' : mid = low := by rw [← hmid, if_neg hlow']
              subst hmid'
              have hlt' : mid < outerHigh := by omega
              refine meets_require (fun h => absurd hlt' h) fun _ => ?_
              have hinner : innerBounds mid high mid outerHigh ≤ splits := by
                simp only [innerBounds, if_neg hlow', if_true] at hsplits ⊢
                omega
              refine meets_bind (meets_mono (ih newRight.1 (target current state) _ hlt'
                haligned hhigh hinner)
                (fun e he => he.mono fun hv => ⟨le_rfl, hv.2⟩) fun _ h => h) fun r hr => ?_
              exact meets_pure (splitTagged_right newLeft.1 hmidlt hne hr)
            · refine meets_throw (.of_not_valid (fun hv => ?_) _)
              have h2 := hv.2.1
              split_ifs at hmid <;> omega
        · obtain ⟨left, right, lists'⟩ := t
          refine meets_require (fun h => absurd ht.not_mergeable h) fun _ => ?_
          refine meets_bind (meets_mono (updateNode_meets branch.1 lists' ht.left_wellFormed
            ht.right_wellFormed hmidAligned haligned hhigh)
            (fun _ he => Or.inl he) fun _ h => h) fun r hr => ?_
          have hbranch := hr.2.2 ht.not_mergeable
          refine meets_require (fun h => absurd hbranch.1 h) fun _ => ?_
          refine meets_pure ⟨hr.1, fun p hp hp' => ?_, fun s hs => ?_⟩
          · rw [hr.2.1 p, ht.pages p hp hp']
          · simp [hbranch.2] at hs
    · have hexact' : low = outerLow ∧ high = outerHigh := not_not.mp hexact
      obtain ⟨rfl, rfl⟩ := hexact'
      refine meets_require (fun h => absurd (Or.inl rfl) h) fun _ => ?_
      exact meets_pure (leafTagged_leaf node current state hlt)

/-- TagRangeInternal on a well-formed tree. For any arguments a run that returns
has tagged exactly the given range; a valid range cannot fail an assertion. -/
theorem tagRangeInternal_meets (node : StateNode) (state : RangeState)
    {low high outerLow outerHigh : ℕ} (lists : FreeLists)
    (h : WellFormed node outerLow outerHigh) (haligned : Aligned outerHigh)
    (hhigh : outerHigh < 2 ^ 48) :
    Meets (TagFault (ValidRange low high outerLow outerHigh))
      (fun r => WellFormed r.1 outerLow outerHigh ∧
        ∀ p, outerLow ≤ p → p < outerHigh → getPageStateInternal r.1 p =
          tagged (getPageStateInternal node) low high state p)
      (tagRangeInternal node low high state outerLow outerHigh lists) := by
  induction node generalizing low high outerLow outerHigh lists with
  | leaf node address current =>
    obtain ⟨hlt, rfl⟩ := h
    unfold tagRangeInternal
    have hinner : innerBounds low high outerLow address ≤ 2 := by
      unfold innerBounds
      split_ifs <;> omega
    exact meets_post (tagLeaf_meets 2 node current state lists hlt haligned hhigh hinner)
      fun r hr => ⟨hr.1, hr.2.1⟩
  | branch node address left right remaining largest ihl ihr =>
    obtain ⟨haddress, hleft, hright, -⟩ := h
    have hl := hleft.lt
    have hr := hright.lt
    unfold tagRangeInternal
    refine meets_bind (checkBounds_meets (hl.trans hr) hhigh) fun _ hbounds => ?_
    refine meets_require (fun h => absurd hl.le h) fun _ => ?_
    refine meets_require (fun h => absurd hr h) fun _ => ?_
    refine meets_bind (R := fun t => WellFormed t.1 outerLow address ∧
      WellFormed t.2.1 address outerHigh ∧
      ∀ p, outerLow ≤ p → p < outerHigh →
        (if p < address then getPageStateInternal t.1 p else getPageStateInternal t.2.1 p) =
          tagged (getPageStateInternal (.branch node address left right remaining largest))
            low high state p) ?_ fun t ht => ?_
    · refine meets_ite (fun hgo => ?_) fun hgo => ?_
      · -- the left branch alone
        refine meets_bind (meets_mono (ihl lists hleft haddress (by omega))
          (fun e he => he.mono fun hv => ⟨hv.1, hv.2.1, hgo.2, hv.2.2.2⟩)
          fun _ h => h) fun r hr' => ?_
        refine meets_pure ⟨hr'.1, hright, fun p hp hp' => ?_⟩
        by_cases hpa : p < address
        · rw [if_pos hpa, hr'.2 p hp hpa]
          simp [tagged, getPageStateInternal, hpa]
        · have hnot : ¬ p < high := by omega
          simp [tagged, getPageStateInternal, hpa, hnot]
      · refine meets_ite (fun hgo' => ?_) fun hgo' => ?_
        · -- the right branch alone
          refine meets_bind (meets_mono (ihr lists hright haligned hhigh)
            (fun e he => he.mono fun hv => ⟨hgo', hv.2⟩) fun _ h => h) fun r hr' => ?_
          refine meets_pure ⟨hleft, hr'.1, fun p hp hp' => ?_⟩
          by_cases hpa : p < address
          · have hnot : ¬ low ≤ p := by omega
            simp [tagged, getPageStateInternal, hpa, hnot]
          · rw [if_neg hpa, hr'.2 p (by omega) hp']
            simp [tagged, getPageStateInternal, hpa]
        · -- the range spans the dividing address
          have hlow : low < address := by omega
          have hhigh' : address < high := by omega
          refine meets_bind (meets_mono (ihl lists hleft haddress (by omega))
            (fun e he => he.mono fun hv => ⟨hv.1, hlow, le_rfl, hv.2.2.2.1, haddress⟩)
            fun _ h => h) fun l hl' => ?_
          refine meets_bind (meets_mono (ihr l.2 hright haligned hhigh)
            (fun e he => he.mono fun hv => ⟨le_rfl, hhigh', hv.2.2.1, haddress, hv.2.2.2.2⟩)
            fun _ h => h) fun r hr' => ?_
          refine meets_pure ⟨hl'.1, hr'.1, fun p hp hp' => ?_⟩
          by_cases hpa : p < address
          · have hph : p < high := by omega
            rw [if_pos hpa, hl'.2 p hp hpa]
            simp [tagged, getPageStateInternal, hpa, hph]
          · have hpl : low ≤ p := by omega
            have hpa' : address ≤ p := by omega
            rw [if_neg hpa, hr'.2 p hpa' hp']
            simp [tagged, getPageStateInternal, hpa, hpl, hpa']
    · obtain ⟨left', right', lists'⟩ := t
      refine meets_mono (updateNode_meets node lists' ht.1 ht.2.1 haddress haligned hhigh)
        (fun _ he => Or.inl he) fun r hr' => ⟨hr'.1, fun p hp hp' => ?_⟩
      rw [hr'.2.1 p, ht.2.2 p hp hp']

end Enkel.MemoryState

namespace Enkel.MemoryState

open Outcome

/-- A page-state tree whose root is well formed below its highest address. -/
structure Valid (m : MemoryState) : Prop where
  wellFormed : WellFormed m.stateRoot 0 m.highestAddress
  aligned : Aligned m.highestAddress
  lt : m.highestAddress < 2 ^ 48

theorem init_valid {highestAddress : ℕ} (hpos : 0 < highestAddress)
    (haligned : Aligned highestAddress) (hle : highestAddress ≤ pageMask) :
    (init highestAddress).Valid := by
  have hlt : highestAddress < 2 ^ 48 := by
    unfold pageMask at hle
    omega
  exact ⟨⟨hpos, and_pageMask_of_aligned haligned hlt⟩, haligned, hlt⟩

theorem tagRange_meets {m : MemoryState} (hm : m.Valid) (low high : ℕ) (state : RangeState) :
    Meets (TagFault (ValidRange low high 0 m.highestAddress))
      (fun m' => m'.Valid ∧ m'.highestAddress = m.highestAddress ∧
        ∀ p < m.highestAddress, m'.getPageState p = tagged m.getPageState low high state p)
      (m.tagRange low high state) := by
  refine meets_bind (tagRangeInternal_meets m.stateRoot state m.lists hm.wellFormed
    hm.aligned hm.lt) fun r hr => ?_
  exact meets_pure ⟨⟨hr.1, hm.aligned, hm.lt⟩, rfl, fun p hp => hr.2 p (Nat.zero_le p) hp⟩

/-- All addresses of a page have its state. -/
theorem getPageStateInternal_page {node : StateNode} {low high : ℕ}
    (h : WellFormed node low high) {x y : ℕ} (hxy : x / 4096 = y / 4096) :
    getPageStateInternal node x = getPageStateInternal node y := by
  induction node generalizing low high with
  | leaf node address state => rfl
  | branch node address left right remaining largest ihl ihr =>
    have haligned := h.1
    unfold Aligned at haligned
    have hiff : x < address ↔ y < address := by omega
    simp only [getPageStateInternal, hiff, ihl h.2.1, ihr h.2.2.1]

theorem tagRangeInternal_high_le (node : StateNode) (state : RangeState)
    {low high outerLow outerHigh : ℕ} (lists : FreeLists) :
    Meets (fun _ => True) (fun _ => high ≤ outerHigh)
      (tagRangeInternal node low high state outerLow outerHigh lists) := by
  have hbounds : Meets (fun _ => True) (fun _ => high ≤ outerHigh)
      (checkBounds low high outerLow outerHigh) := by
    unfold checkBounds
    refine meets_require (fun _ => trivial) fun _ => ?_
    refine meets_require (fun _ => trivial) fun _ => ?_
    refine meets_true_iff.mpr fun _ h => ?_
    exact require_eq_ok.mp h
  cases node with
  | leaf node address current =>
    unfold tagRangeInternal tagLeaf
    exact meets_bind hbounds fun _ h => meets_true_iff.mpr fun _ _ => h
  | branch node address left right remaining largest =>
    unfold tagRangeInternal
    exact meets_bind hbounds fun _ h => meets_true_iff.mpr fun _ _ => h

/-- An empty range is tagged by looking for its leaf: nothing changes unless the leaf
is Free, and then an assertion fails. -/
theorem tagRangeInternal_empty_meets (node : StateNode) {low outerLow outerHigh : ℕ}
    (lists : FreeLists) (h : WellFormed node outerLow outerHigh) (haligned : Aligned outerHigh)
    (hhigh : outerHigh < 2 ^ 48) (hlow : outerLow ≤ low) (hle : low ≤ outerHigh) :
    Meets (fun e => getPageStateInternal node low = .free ∨ e.NodeListEmpty)
      (fun _ => getPageStateInternal node low ≠ .free)
      (tagRangeInternal node low low .used outerLow outerHigh lists) := by
  have hpos : ∀ {a b : ℕ}, a < b → b < 2 ^ 48 → sub64 b a > 0 := fun hab hb => by
    rw [sub64_of_le (by omega) (by omega)]
    omega
  induction node generalizing outerLow outerHigh lists with
  | leaf node address current =>
    obtain ⟨hlt, rfl⟩ := h
    unfold tagRangeInternal tagLeaf checkBounds
    rw [require_true (hpos hlt hhigh), ok_bind, require_true hlow, ok_bind, require_true hle,
      ok_bind, require_true (show address ≥ low from hle), ok_bind, ok_bind]
    dsimp only
    rw [if_pos (by omega : ¬ (low = outerLow ∧ low = address))]
    by_cases hfree : current = .free
    · -- the split finds no part for the range
      refine meets_mono (E := fun _ => True) (Q := fun _ => False) ?_ (fun _ _ => Or.inl hfree)
        fun _ hfalse => hfalse.elim
      rw [if_neg (by rw [hfree]; simp)]
      refine meets_true_iff.mpr fun r hr => ?_
      obtain ⟨branch, -, hr⟩ := bind_eq_ok.mp hr
      obtain ⟨u, hzero, hr⟩ := bind_eq_ok.mp hr
      obtain ⟨newLeft, -, hr⟩ := bind_eq_ok.mp hr
      obtain ⟨u', -, hr⟩ := bind_eq_ok.mp hr
      obtain ⟨u'', -, hr⟩ := bind_eq_ok.mp hr
      obtain ⟨newRight, -, hr⟩ := bind_eq_ok.mp hr
      have hmid : (if low = outerLow then low else low) = low := ite_self low
      simp only [hmid, lt_irrefl, and_false, false_and, if_false] at hr
      cases hr
    · rw [if_pos ⟨hlow, hle, by cases current <;> simp_all⟩]
      exact meets_ok hfree
  | branch node address left right remaining largest ihl ihr =>
    obtain ⟨haddress, hleft, hright, -⟩ := h
    have hl := hleft.lt
    have hr := hright.lt
    have hstate : getPageStateInternal (.branch node address left right remaining largest) low =
        if low < address then getPageStateInternal left low else getPageStateInternal right low := rfl
    unfold tagRangeInternal checkBounds
    rw [require_true (hpos (hl.trans hr) hhigh), ok_bind, require_true hlow, ok_bind,
      require_true hle, ok_bind, require_true hl.le, ok_bind, require_true hr, ok_bind, hstate]
    refine meets_bind (R := fun t => WellFormed t.1 outerLow address ∧
      WellFormed t.2.1 address outerHigh ∧
      (if low < address then getPageStateInternal left low else getPageStateInternal right low) ≠
        .free) ?_ fun t ht => ?_
    · by_cases hgo : low < address
      · simp only [if_pos hgo, if_pos (And.intro hgo hgo.le)]
        refine meets_bind (meets_mono (meets_and (ihl lists hleft haddress (by omega) hlow hgo.le)
          (tagRangeInternal_meets left .used lists hleft haddress (by omega)))
          (fun e he => he.1) fun _ h => h) fun r hr' => ?_
        exact meets_pure ⟨hr'.2.1, hright, hr'.1⟩
      · have hboth : ¬ (low < address ∧ low ≤ address) := fun h => hgo h.1
        simp only [if_neg hgo, if_neg hboth, if_pos (not_lt.mp hgo)]
        refine meets_bind (meets_mono (meets_and (ihr lists hright haligned hhigh (not_lt.mp hgo) hle)
          (tagRangeInternal_meets right .used lists hright haligned hhigh))
          (fun e he => he.1) fun _ h => h) fun r hr' => ?_
        exact meets_pure ⟨hleft, hr'.2.1, hr'.1⟩
    · obtain ⟨left', right', lists'⟩ := t
      exact meets_mono (updateNode_meets node lists' ht.1 ht.2.1 haddress haligned hhigh)
        (fun _ he => Or.inr he) fun _ _ => ht.2.2

theorem tagRange_empty_meets {m : MemoryState} (hm : m.Valid) {low : ℕ}
    (hle : low ≤ m.highestAddress) :
    Meets (fun e => m.getPageState low = .free ∨ e.NodeListEmpty)
      (fun _ => m.getPageState low ≠ .free) (m.tagRange low low .used) :=
  meets_bind (tagRangeInternal_empty_meets m.stateRoot m.lists hm.wellFormed hm.aligned hm.lt
    (Nat.zero_le low) hle) fun _ h => meets_pure h

/-- What is known of a tag that has returned, whatever its arguments. -/
theorem tagRange_eq_ok {m m' : MemoryState} (hm : m.Valid) {low high : ℕ} {state : RangeState}
    (h : m.tagRange low high state = .ok m') :
    m'.Valid ∧ m'.highestAddress = m.highestAddress ∧ high ≤ m.highestAddress ∧
      ∀ p < m.highestAddress, m'.getPageState p = tagged m.getPageState low high state p := by
  have hpost := (tagRange_meets hm low high state).of_eq_ok h
  have hhigh : Meets (fun _ => True) (fun _ => high ≤ m.highestAddress)
      (m.tagRange low high state) :=
    meets_bind (tagRangeInternal_high_le m.stateRoot state m.lists) fun _ h => meets_pure h
  exact ⟨hpost.1, hpost.2.1, hhigh.of_eq_ok h, hpost.2.2⟩

structure TagCall where
  low : ℕ
  high : ℕ
  state : RangeState
deriving DecidableEq, Repr

/-- A sequence of TagRange calls. -/
def tagCalls (m : MemoryState) (calls : List TagCall) : Except Fault MemoryState :=
  calls.foldlM (fun m c => m.tagRange c.low c.high c.state) m

/-- The abstract page map after the same calls. -/
def pageMap (pages : ℕ → RangeState) (calls : List TagCall) : ℕ → RangeState :=
  calls.foldl (fun pages c => tagged pages c.low c.high c.state) pages

/-- The tree represents the page map below its highest address. -/
def Represents (m : MemoryState) (highestAddress : ℕ) (pages : ℕ → RangeState) : Prop :=
  m.Valid ∧ m.highestAddress = highestAddress ∧ ∀ p < highestAddress, m.getPageState p = pages p

theorem represents_init {highestAddress : ℕ} (hpos : 0 < highestAddress)
    (haligned : Aligned highestAddress) (hle : highestAddress ≤ pageMask) :
    (init highestAddress).Represents highestAddress fun _ => .free :=
  ⟨init_valid hpos haligned hle, rfl, fun _ _ => rfl⟩

theorem represents_tagRange {m : MemoryState} {highestAddress : ℕ} {pages : ℕ → RangeState}
    (h : m.Represents highestAddress pages) (c : TagCall)
    (hc : ValidRange c.low c.high 0 highestAddress) :
    Meets Fault.NodeListEmpty
      (fun m' => m'.Represents highestAddress (tagged pages c.low c.high c.state))
      (m.tagRange c.low c.high c.state) := by
  obtain ⟨hm, rfl, hpages⟩ := h
  refine meets_mono (tagRange_meets hm c.low c.high c.state) (fun e he => ?_) fun m' hm' => ?_
  · rcases he with he | ⟨hn, -⟩
    · exact he
    · exact absurd hc hn
  · refine ⟨hm'.1, hm'.2.1, fun p hp => ?_⟩
    rw [hm'.2.2 p hp]
    simp only [tagged, hpages p hp]

/-- The calls that TagRange accepts on a tree with the given highest address. -/
def ValidCalls (highestAddress : ℕ) (calls : List TagCall) : Prop :=
  ∀ c ∈ calls, ValidRange c.low c.high 0 highestAddress

theorem tagCalls_meets {highestAddress : ℕ} (hpos : 0 < highestAddress)
    (haligned : Aligned highestAddress) (hle : highestAddress ≤ pageMask) {calls : List TagCall}
    (hcalls : ValidCalls highestAddress calls) :
    Meets Fault.NodeListEmpty
      (fun m => m.Represents highestAddress (pageMap (fun _ => .free) calls))
      ((init highestAddress).tagCalls calls) :=
  meets_foldlM (R := fun (m : MemoryState) pages => m.Represents highestAddress pages) calls
    (fun c hc _ _ h => represents_tagRange h c (hcalls c hc))
    (represents_init hpos haligned hle)

/-- Sequences of tags refine the abstract page map. The only way not to return
is to exhaust a node list. -/
theorem tagCalls_refine (highestAddress : ℕ) (hpos : 0 < highestAddress)
    (haligned : Aligned highestAddress) (hle : highestAddress ≤ pageMask) (calls : List TagCall)
    (hcalls : ValidCalls highestAddress calls) :
    (∃ m, (init highestAddress).tagCalls calls = .ok m ∧
      ∀ p < highestAddress, m.getPageState p = pageMap (fun _ => .free) calls p) ∨
    (init highestAddress).tagCalls calls = .error .leafListEmpty ∨
    (init highestAddress).tagCalls calls = .error .branchListEmpty := by
  rcases (tagCalls_meets hpos haligned hle hcalls).ok_or_error with
    ⟨m, hm, hrep⟩ | ⟨e, he, hempty⟩
  · exact Or.inl ⟨m, hm, hrep.2.2⟩
  · rcases hempty with rfl | rfl
    · exact Or.inr (Or.inl he)
    · exact Or.inr (Or.inr he)

/-- A run with splits on both sides, a Reserved page inside a range and a merge. -/
def splitCalls : List TagCall :=
  [⟨0x2000, 0x6000, .used⟩, ⟨0x3000, 0x4000, .reserved⟩, ⟨0x1000, 0x5000, .free⟩,
    ⟨0x1000, 0x2000, .used⟩, ⟨0, 0x8000, .free⟩]

theorem tagCalls_refine_split :
    ∃ m, (init 0x8000).tagCalls splitCalls = .ok m ∧
      ∀ p < 0x8000, m.getPageState p = pageMap (fun _ => .free) splitCalls p := by
  rcases tagCalls_refine 0x8000 (by decide) (by decide) (by decide) splitCalls
    (by unfold splitCalls ValidCalls ValidRange; decide) with h | h | h
  · exact h
  · exact absurd h (by decide +kernel)
  · exact absurd h (by decide +kernel)

end Enkel.MemoryState
