import Enkel.NodePools

/-!
How often TagRangeInternal splits a leaf. A range that starts where the leaf does is split off
once; any other is cut off below first, and then starts where the new leaf does. The bound on the
splits is therefore never used up: TagRange halts only where the source does.
-/
namespace Enkel.NodePools

open Outcome MemoryState

/-- A halt of the source, in an assertion or a null pointer. -/
def Halt.InSource (h : Halt) : Prop := h.fault ≠ .splitBound

variable {y : Layout} {n : Nodes} {k : Kind}
  {address low high outerLow outerHigh node splits : ℕ} {left right : TreeNode}
  {current state : RangeState} {α β : Type} {Q : β → Prop}

section Checks

theorem avoids_getLargestFree {t : TreeNode} :
    Avoids .splitBound (getLargestFree t outerLow outerHigh) := by
  cases t with
  | branch => exact avoids_ok _
  | leaf node address state =>
    cases state
    · exact avoids_require_bind (by simp) fun _ => avoids_pure _
    · exact avoids_ok _
    · exact avoids_ok _

theorem avoids_getRemaining {t : TreeNode} :
    Avoids .splitBound (getRemaining t outerLow outerHigh) := by
  cases t with
  | branch => exact avoids_ok _
  | leaf node address state =>
    cases state
    · exact avoids_require_bind (by simp) fun _ => avoids_pure _
    · exact avoids_ok _
    · exact avoids_ok _

theorem avoids_summary :
    Avoids .splitBound (summary address left right outerLow outerHigh) := by
  unfold summary
  refine avoids_bind.mpr ⟨avoids_getLargestFree, fun _ _ => ?_⟩
  refine avoids_bind.mpr ⟨avoids_getLargestFree, fun _ _ => ?_⟩
  refine avoids_require_bind (by simp) fun _ => ?_
  refine avoids_bind.mpr ⟨avoids_getRemaining, fun _ _ => ?_⟩
  exact avoids_bind.mpr ⟨avoids_getRemaining, fun _ _ => avoids_pure _⟩

theorem avoids_checkBounds : Avoids .splitBound (checkBounds low high outerLow outerHigh) := by
  unfold checkBounds
  refine avoids_require_bind (by simp) fun _ => ?_
  refine avoids_require_bind (by simp) fun _ => ?_
  exact avoids_require.mpr nofun

theorem meets_check_inSource {x : Except Fault α} (hx : Avoids .splitBound x)
    {f : α → Except Halt β} (hf : ∀ a, Meets Halt.InSource Q (f a)) :
    Meets Halt.InSource Q (n.check x >>= f) := by
  cases x with
  | ok a => exact hf a
  | error e => exact meets_error fun heq => hx (congrArg _ heq)

end Checks

section Tree

theorem getFreeState_inSource : Meets Halt.InSource (fun _ => True) (n.getFreeState y k) :=
  meets_require (fun _ => nofun) fun _ => meets_pure trivial

theorem updateNode_inSource : Meets Halt.InSource (fun _ => True)
    (updateNode y node address left right outerLow outerHigh n) := by
  have hkeep : Meets Halt.InSource (fun _ : TreeNode × Nodes => True)
      (n.check (summary address left right outerLow outerHigh) >>= fun r =>
        pure (.branch node address left right r.1 r.2, n)) :=
    meets_check_inSource avoids_summary fun _ => meets_pure trivial
  unfold updateNode
  cases left.leafState with
  | none => exact hkeep
  | some state =>
    refine meets_ite (fun _ => ?_) fun _ => hkeep
    exact meets_bind getFreeState_inSource fun _ _ => meets_pure trivial

/-- A leaf with the bounds of the range is not split. -/
theorem tagLeaf_whole (hlow : low = outerLow) (hhigh : high = address) :
    Meets Halt.InSource (fun _ => True)
      (tagLeaf y splits node address current low high state outerLow outerHigh n) := by
  subst hlow hhigh
  cases splits <;>
  · unfold tagLeaf
    refine meets_check_inSource avoids_checkBounds fun _ => ?_
    refine meets_require (fun _ => nofun) fun _ => ?_
    refine meets_require (fun _ => nofun) fun _ => ?_
    refine meets_ite (fun hnot => absurd ⟨rfl, rfl⟩ hnot) fun _ => ?_
    exact meets_require (fun _ => nofun) fun _ => meets_pure trivial

/-- A split goes on in one of the new leaves. -/
theorem tagLeaf_split_inSource {mid : ℕ} (hmid : mid = if low = outerLow then high else low)
    (hleft : high ≤ mid → mid = setAddress mid → low < mid → ∀ state node n,
      Meets Halt.InSource (fun _ => True)
        (tagLeaf y splits node (setAddress mid) current low high state outerLow mid n))
    (hright : low ≥ mid → high > mid → ∀ state node n, Meets Halt.InSource (fun _ => True)
        (tagLeaf y splits node (setAddress address) current low high state mid address n)) :
    Meets Halt.InSource (fun _ => True)
      (tagLeaf y (splits + 1) node address current low high state outerLow outerHigh n) := by
  unfold tagLeaf
  rw [← hmid]
  refine meets_check_inSource avoids_checkBounds fun _ => ?_
  refine meets_require (fun _ => nofun) fun _ => ?_
  refine meets_require (fun _ => nofun) fun _ => ?_
  refine meets_ite (fun _ => ?_) fun _ => ?_
  · refine meets_ite (fun _ => meets_pure trivial) fun _ => ?_
    refine meets_bind getFreeState_inSource fun ⟨newBranch, n₁⟩ _ => ?_
    refine meets_require (fun _ => nofun) fun _ => ?_
    refine meets_bind getFreeState_inSource fun ⟨newLeft, n₂⟩ _ => ?_
    refine meets_require (fun _ => nofun) fun hset => ?_
    refine meets_require (fun _ => nofun) fun _ => ?_
    refine meets_bind getFreeState_inSource fun ⟨newRight, n₃⟩ _ => ?_
    refine meets_bind (R := fun _ => True)
      (meets_ite (fun hin => ?_) fun _ => meets_ite (fun hin => ?_) fun _ => ?_)
      fun ⟨left, right, n₄⟩ _ => ?_
    · exact meets_bind (hleft hin.2 hset hin.1 _ _ _) fun _ _ => meets_pure trivial
    · refine meets_require (fun _ => nofun) fun _ => ?_
      exact meets_bind (hright hin.1 hin.2 _ _ _) fun _ _ => meets_pure trivial
    · exact meets_throw nofun
    · refine meets_require (fun _ => nofun) fun _ => ?_
      refine meets_bind updateNode_inSource fun _ _ => ?_
      exact meets_require (fun _ => nofun) fun _ => meets_pure trivial
  · exact meets_require (fun _ => nofun) fun _ => meets_pure trivial

/-- A range that starts with the leaf is split off once. -/
theorem tagLeaf_start_inSource (hlow : low = outerLow) : Meets Halt.InSource (fun _ => True)
    (tagLeaf y (splits + 1) node address current low high state outerLow outerHigh n) := by
  refine tagLeaf_split_inSource (if_pos hlow).symm (fun _ hset _ state node n => ?_)
    fun _ hlt => absurd hlt (lt_irrefl _)
  exact tagLeaf_whole hlow hset

/-- Two splits are enough for any range. -/
theorem tagLeaf_inSource : Meets Halt.InSource (fun _ => True)
    (tagLeaf y 2 node address current low high state outerLow outerHigh n) := by
  by_cases hlow : low = outerLow
  · exact tagLeaf_start_inSource hlow
  · refine tagLeaf_split_inSource (if_neg hlow).symm (fun _ _ hlt => absurd hlt (lt_irrefl _))
      fun _ _ state node n => ?_
    exact tagLeaf_start_inSource rfl

theorem tagRangeInternal_inSource {t : TreeNode} : Meets Halt.InSource (fun _ => True)
    (tagRangeInternal y t low high state outerLow outerHigh n) := by
  induction t generalizing low high outerLow outerHigh n with
  | leaf node address current => exact tagLeaf_inSource
  | branch node address left right _ _ ihLeft ihRight =>
    unfold tagRangeInternal
    refine meets_check_inSource avoids_checkBounds fun _ => ?_
    refine meets_require (fun _ => nofun) fun _ => ?_
    refine meets_require (fun _ => nofun) fun _ => ?_
    refine meets_bind (R := fun _ => True)
      (meets_ite (fun _ => ?_) fun _ => meets_ite (fun _ => ?_) fun _ => ?_)
      fun _ _ => updateNode_inSource
    · exact meets_bind ihLeft fun _ _ => meets_pure trivial
    · exact meets_bind ihRight fun _ _ => meets_pure trivial
    · exact meets_bind ihLeft fun _ _ => meets_bind ihRight fun _ _ => meets_pure trivial

/-- The bound on the splits is never used up. -/
theorem tagRange_inSource (m : LinkedState) : Meets Halt.InSource (fun _ => True)
    (m.tagRange y low high state) :=
  meets_bind tagRangeInternal_inSource fun _ _ => meets_pure trivial

end Tree

end Enkel.NodePools
