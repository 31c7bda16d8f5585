import Enkel.NodePoolRuns

/-!
A run that uses up the initial entries: Init, InitDynamic, and then one page after
the other is tagged Used. No leaves are merged, so the tree is a spine to the right
that takes one branch for each page; the 4096th page swaps in a page of rpmalloc.
-/
namespace Enkel.NodePools

open Outcome MemoryState IntrusiveList

/-- The first `count` pages from `low` on are Used, each in a leaf; the rest up to `high`
is free, in the leaf at `last`. -/
inductive Spine (high last : ℕ) : ℕ → ℕ → TreeNode → Prop
  | leaf (low : ℕ) : Spine high last low 0 (.leaf last high .free)
  | branch {low count : ℕ} {right : TreeNode} (node left remaining largest : ℕ)
      (h : Spine high last (low + 4096) count right) :
      Spine high last low (count + 1)
        (.branch node (low + 4096) (.leaf left (low + 4096) .used) right remaining largest)

/-- Init and InitDynamic, and then that many pages from zero on. -/
def tagPages (y : Layout) (word : ℕ → ℕ) (highest : ℕ) : ℕ → Except Halt LinkedState
  | 0 => do
    let m ← LinkedState.init y word highest
    return m.initDynamic y
  | count + 1 => do
    let m ← tagPages y word highest count
    m.tagRange y (0 + count * 4096) (0 + count * 4096 + 4096) .used

theorem tagPages_zero_eq (y : Layout) (word : ℕ → ℕ) (highest : ℕ) :
    tagPages y word highest 0 =
      LinkedState.init y word highest >>= fun m => pure (m.initDynamic y) := rfl

theorem tagPages_succ_eq (y : Layout) (word : ℕ → ℕ) (highest count : ℕ) :
    tagPages y word highest (count + 1) = tagPages y word highest count >>= fun m =>
      m.tagRange y (0 + count * 4096) (0 + count * 4096 + 4096) .used := rfl

-- Unfolding a run of 4096 steps would run it.
attribute [irreducible] tagPages

variable {y : Layout} {n n₁ n₂ n₃ : Nodes} {nodes : List (Kind × ℕ)} {free : Kind → List ℕ}
  {k : Kind} {a b l r high last low count x : ℕ} {t : TreeNode}

section Spine

/-- A used leaf is not merged with a branch or a free leaf behind it. -/
theorem updateNode_used {node address left outerLow outerHigh rem lar : ℕ} {right : TreeNode}
    (hright : right.leafState ≠ some .used)
    (hsummary : summary address (.leaf left address .used) right outerLow outerHigh =
      .ok (rem, lar)) :
    updateNode y node address (.leaf left address .used) right outerLow outerHigh n =
      .ok (.branch node address (.leaf left address .used) right rem lar, n) := by
  have hnot : ¬ mergeable (.leaf left address .used) right := fun h => hright h.2.symm
  unfold updateNode
  simp only [TreeNode.leafState, if_neg hnot, hsummary, Nodes.check, ok_bind]
  rfl

theorem summary_branch (left : ℕ) {address node raddress remaining largest outerLow outerHigh : ℕ}
    {rleft rright : TreeNode} (hpos : sub64 outerHigh outerLow > 0) :
    ∃ rem lar, summary address (.leaf left address .used)
      (.branch node raddress rleft rright remaining largest) outerLow outerHigh =
        .ok (rem, lar) := by
  unfold summary
  simp only [getLargestFree, getRemaining, require_true hpos, ok_bind]
  exact ⟨_, _, rfl⟩

/-- The branch above a spine stays a branch. -/
theorem updateNode_spine (ht : Spine high last low (count + 1) t) {outerLow : ℕ}
    (hpos : sub64 high outerLow > 0) :
    ∃ rem lar, ∀ n, updateNode y a low (.leaf l low .used) t outerLow high n =
      .ok (.branch a low (.leaf l low .used) t rem lar, n) := by
  cases ht with
  | branch node left remaining largest h =>
    obtain ⟨rem, lar, hsummary⟩ := summary_branch l hpos
    exact ⟨rem, lar, fun n => updateNode_used nofun hsummary⟩

theorem summary_free {address left right outerLow outerHigh : ℕ}
    (hpos : sub64 outerHigh outerLow > 0) (hright : sub64 outerHigh address > 0) :
    ∃ rem lar, summary address (.leaf left address .used) (.leaf right outerHigh .free)
      outerLow outerHigh = .ok (rem, lar) := by
  unfold summary
  simp only [getLargestFree, getRemaining, require_true hpos, require_true hright, ok_bind]
  exact ⟨_, _, rfl⟩

theorem checkBounds_ok {outerLow outerHigh : ℕ} (h : outerLow ≤ low) (h' : high ≤ outerHigh)
    (hlt : outerLow < outerHigh) (hmax : outerHigh < 2 ^ 48) :
    checkBounds low high outerLow outerHigh = .ok () := by
  have hpos : sub64 outerHigh outerLow > 0 := by
    rw [sub64_of_le hlt.le (by omega)]
    omega
  unfold checkBounds
  rw [require_true hpos, require_true h, require_true h']
  rfl

/-- The first part of a free leaf is split off and tagged. -/
theorem tagLeaf_split {mid : ℕ} (last : ℕ) (hlow : low < mid) (hroom : mid < high)
    (hlt : high < 2 ^ 48)
    (hmid : setAddress mid = mid) (hhigh : setAddress high = high)
    (hb : n.getFreeBranchState y = .ok (b, n₁))
    (hl : (n₁.setNode b mid branchCode).getFreeLeafState y = .ok (l, n₂))
    (hr : (n₂.setNode l mid (stateCode .free)).getFreeLeafState y = .ok (r, n₃)) :
    ∃ rem lar, tagLeaf y 2 last high .free low mid .used low high n =
      .ok (.branch b mid (.leaf l mid .used) (.leaf r high .free) rem lar,
        ((n₃.setNode r high (stateCode .free)).freeLeafState last).setNode l mid
          (stateCode .used)) := by
  have hpos : sub64 high low > 0 := by
    rw [sub64_of_le (by omega) (by omega)]
    omega
  have hposRight : sub64 high mid > 0 := by
    rw [sub64_of_le (by omega) (by omega)]
    omega
  -- the new left leaf covers exactly the tagged range
  have hinner : ∀ n', tagLeaf y 1 l mid .free low mid .used low mid n' =
      .ok (.leaf l mid .used, n'.setNode l mid (stateCode .used)) := by
    intro n'
    unfold tagLeaf
    rw [checkBounds_ok le_rfl le_rfl hlow (by omega)]
    simp [Nodes.check, hlow.le]
  obtain ⟨rem, lar, hsummary⟩ : ∃ rem lar, summary mid (.leaf l mid .used) (.leaf r high .free)
    low high = .ok (rem, lar) := summary_free hpos hposRight
  have hfree : (TreeNode.leaf r high .free).leafState ≠ some .used := by
    simp [TreeNode.leafState]
  have hnot : ¬ mergeable (.leaf l mid .used) (.leaf r high .free) := fun h => hfree h.2.symm
  refine ⟨rem, lar, ?_⟩
  unfold tagLeaf
  rw [checkBounds_ok le_rfl hroom.le (by omega) hlt]
  simp only [Nodes.check, ok_bind, if_true, true_or, hroom.ne, not_false_eq_true, ne_eq,
    reduceCtorEq, and_false, if_false, hb, hl, hr, hmid, hhigh, le_refl, and_true, hlow,
    require_true, hinner, hnot, pure_bind, hroom.le, (hlow.trans hroom).le, ge_iff_le,
    updateNode_used hfree hsummary, TreeNode.ptr]
  rfl

/-- Tagging the page behind the used ones splits the free leaf. -/
theorem Spine.tag (ht : Spine high last low count t) (hlow : Aligned low) (hhigh : Aligned high)
    (hlt : high < 2 ^ 48) (hx : x = low + count * 4096) (hroom : x + 4096 < high)
    (hb : n.getFreeBranchState y = .ok (b, n₁))
    (hl : (n₁.setNode b (x + 4096) branchCode).getFreeLeafState y = .ok (l, n₂))
    (hr : (n₂.setNode l (x + 4096) (stateCode .free)).getFreeLeafState y = .ok (r, n₃)) :
    ∃ t', tagRangeInternal y t x (x + 4096) .used low high n =
        .ok (t', ((n₃.setNode r high (stateCode .free)).freeLeafState last).setNode l (x + 4096)
          (stateCode .used)) ∧
      Spine high r low (count + 1) t' := by
  induction ht with
  | leaf low =>
    obtain rfl : x = low := by omega
    have hmid : Aligned (x + 4096) := by
      unfold Aligned at *
      omega
    obtain ⟨rem, lar, hrun⟩ := tagLeaf_split last (Nat.lt_add_of_pos_right (by decide))
      hroom hlt (and_pageMask_of_aligned hmid (by omega)) (and_pageMask_of_aligned hhigh hlt) hb hl hr
    exact ⟨_, hrun, .branch _ _ _ _ (.leaf _)⟩
  | @branch low count right node left remaining largest h ih =>
    have hmid : Aligned (low + 4096) := by
      unfold Aligned at *
      omega
    obtain ⟨t', hrun, ht'⟩ := ih hmid (by omega)
    have hpos : sub64 high low > 0 := by
      rw [sub64_of_le (by omega) (by omega)]
      omega
    obtain ⟨rem, lar, hupdate⟩ := updateNode_spine (y := y) (a := node) (l := left) ht' hpos
    refine ⟨_, ?_, .branch node left rem lar ht'⟩
    have hright : x ≥ low + 4096 := by omega
    unfold tagRangeInternal
    rw [checkBounds_ok (by omega) hroom.le (by omega) hlt, if_neg (by omega), if_pos hright, hrun,
      require_true (Nat.le_add_right low 4096), require_true (by omega)]
    exact hupdate _

end Spine

section Take

/-- A node is taken whenever the list or the prepared page is there. -/
theorem getFreeState_eq_ok {s : Pools}
    (hs : s = if n.pools.freeHead k = 0 then n.pools.refill y k else n.pools)
    (hne : s.freeHead k ≠ 0) :
    ∃ n', n.getFreeState y k = .ok (s.freeHead k, n') ∧ n'.pools =
      { s with
        freeHead := Function.update s.freeHead k (s.word (s.freeHead k))
        inUse := s.freeHead k :: s.inUse } := by
  unfold Nodes.getFreeState
  dsimp only
  rw [← hs, require_true hne]
  exact ⟨_, rfl, rfl⟩

theorem getFreeState_cons {l : List ℕ} (h : Holds y n.pools nodes free) (hl : free k = a :: l) :
    ∃ n', n.getFreeState y k = .ok (a, n') ∧
      Holds y n'.pools ((k, a) :: nodes) (Function.update free k l) ∧
      n'.pools.nextFreeHead = n.pools.nextFreeHead ∧ n'.pools.pages = n.pools.pages := by
  obtain ⟨hhead, hne, hpop⟩ := h.pop hl
  rw [← hhead] at hne
  obtain ⟨n', hrun, hpools⟩ := getFreeState_eq_ok (y := y) (if_neg hne).symm hne
  rw [hhead] at hrun hpools
  refine ⟨n', hrun, ?_, ?_, ?_⟩ <;> rw [hpools]
  exact hpop

/-- Taking a node leaves the other list as it is. -/
theorem getFreeState_next (hy : y.Fresh) (hnext : n.pools.nextFreeHead k ≠ 0) :
    ∃ a n', n.getFreeState y k = .ok (a, n') ∧ n'.pools.nextFreeHead k ≠ 0 ∧
      (∀ k', k' ≠ k → n'.pools.freeHead k' = n.pools.freeHead k') ∧
      ∀ k', k' ≠ k → n'.pools.nextFreeHead k' = n.pools.nextFreeHead k' := by
  by_cases hempty : n.pools.freeHead k = 0
  · have hhead : (n.pools.refill y k).freeHead k = n.pools.nextFreeHead k :=
      Function.update_self k _ _
    obtain ⟨n', hrun, hpools⟩ := getFreeState_eq_ok (y := y) (if_pos hempty).symm
      (hhead ▸ hnext)
    refine ⟨_, n', hrun, ?_, fun k' hk => ?_, fun k' hk => ?_⟩ <;> rw [hpools]
    · have hnew : (n.pools.refill y k).nextFreeHead k = y.table k (n.pools.pages k + 1) :=
        Function.update_self k _ _
      exact hnew ▸ (hy.table_pos _ _).ne'
    · exact (Function.update_of_ne hk _ _).trans (Function.update_of_ne hk _ _)
    · exact Function.update_of_ne hk _ _
  · obtain ⟨n', hrun, hpools⟩ := getFreeState_eq_ok (y := y) (if_neg hempty).symm hempty
    refine ⟨_, n', hrun, ?_, fun k' hk => ?_, fun k' hk => ?_⟩ <;> rw [hpools]
    · exact hnext
    · exact Function.update_of_ne hk _ _

/-- The first node of the prepared page is taken; its first word becomes the list. -/
theorem getFreeState_refill (hy : y.Fresh) (h : Holds y n.pools nodes free) (hnil : free k = [])
    (hnext : n.pools.nextFreeHead k ≠ 0) :
    ∃ m n', n.pools.pages k = m + 1 ∧ n.getFreeState y k = .ok (y.table k (m + 1), n') ∧
      n'.pools.freeHead k = (y.rpmalloc k m).words (y.table k (m + 1)) ∧
      ∀ k', k' ≠ k → n'.pools.nextFreeHead k' = n.pools.nextFreeHead k' := by
  obtain ⟨m, hpages, hhead, hpage⟩ := (h.prepared k).resolve_left hnext
  have hempty : n.pools.freeHead k = 0 := by
    have hchain := h.listed.chain k
    rwa [hnil] at hchain
  have hrefill : (n.pools.refill y k).freeHead k = y.table k (m + 1) :=
    (Function.update_self k _ _).trans hhead
  obtain ⟨n', hrun, hpools⟩ := getFreeState_eq_ok (y := y) (if_pos hempty).symm
    (hrefill ▸ (hy.table_pos _ _).ne')
  rw [hrefill] at hrun hpools
  refine ⟨m, n', hpages, hrun, ?_, fun k' hk => ?_⟩ <;> rw [hpools]
  · have hfirst : y.InTable k (m + 1) (y.table k (m + 1)) :=
      ⟨le_rfl, Nat.lt_add_of_pos_right (by cases k <;> decide)⟩
    refine (Function.update_self k _ _).trans ((Pools.allocate_word fun hin => ?_).trans
      (hpage _ hfirst).1)
    have heq := (hy.apart _ _ _ _ _ hfirst hin).2
    have hsame : n.pools.pages k = m := by
      change m + 1 = n.pools.pages k + 1 at heq
      omega
    omega
  · exact Function.update_of_ne hk _ _

end Take

theorem freeState_freeHead {k' : Kind} (hk : k' ≠ k) :
    (n.freeState k a).pools.freeHead k' = n.pools.freeHead k' :=
  Function.update_of_ne hk _ _

section Run
variable {m : LinkedState} {word : ℕ → ℕ} {highest : ℕ}

/-- After some pages: what is left on the lists, and the pages from rpmalloc untouched. -/
structure SpineState (y : Layout) (highest count : ℕ) (m : LinkedState) (last : ℕ)
    (rest : List (Kind × ℕ)) (free : Kind → List ℕ) : Prop where
  spine : Spine highest last 0 count m.stateRoot
  highest_eq : m.highestAddress = highest
  holds : Holds y m.nodes.pools ((.leaf, last) :: rest) free
  branches : (free .branch).length = 4095 - count
  leaves : (free .leaf).length = 4096 - count
  next : ∀ k, m.nodes.pools.nextFreeHead k ≠ 0
  pages : ∀ k, m.nodes.pools.pages k = 1

theorem Layout.length_initialList : (y.initialList k).length = k.tableEntries := by
  unfold initialList
  rw [List.length_map, List.length_range]

theorem Layout.Fresh.next_ne_zero (hy : y.Fresh) (k : Kind) (n : ℕ) :
    (y.rpmalloc k n).start ≠ 0 :=
  (hy.table_pos k (n + 1)).ne'

theorem tagPages_zero (hy : y.Fresh) (hhigh : Aligned highest) (hlt : highest < 2 ^ 48) :
    ∃ m, tagPages y word highest 0 = .ok m ∧
      ∃ last rest free, SpineState y highest 0 m last rest free := by
  have hlength : (y.initialList .branch).length = 4096 := Layout.length_initialList
  obtain ⟨root, l, hl⟩ := List.exists_cons_of_length_pos (hlength ▸ (by decide : 0 < 4096))
  obtain ⟨n, hrun, hholds, hnext, hpages⟩ :=
    getFreeState_cons (n := ⟨LinkedState.initPools y word, []⟩) (holds_initPools hy word) hl
  have hstored := (hholds.setNode List.mem_cons_self highest (stateCode .free)).asLeaf
  have hroot : setAddress highest = highest := and_pageMask_of_aligned hhigh hlt
  refine ⟨({
      stateRoot := .leaf root (setAddress highest) .free
      nodes := n.setNode root highest (stateCode .free)
      highestAddress := highest } : LinkedState).initDynamic y, ?_, root, [],
    Function.update y.initialList .branch l, ?_, rfl,
    (hstored.allocate hy .leaf).allocate hy .branch, ?_, ?_, fun k => ?_, fun k => ?_⟩
  · rw [tagPages_zero_eq]
    unfold LinkedState.init Nodes.getFreeBranchState
    rw [hrun]
    rfl
  · change Spine highest root 0 0 (.leaf root (setAddress highest) .free)
    rw [hroot]
    exact .leaf 0
  · rw [hl, List.length_cons] at hlength
    rw [Function.update_self]
    omega
  · rw [Function.update_of_ne (by decide)]
    exact Layout.length_initialList
  · cases k
    · exact hy.next_ne_zero .leaf (n.pools.pages .leaf)
    · exact hy.next_ne_zero .branch (n.pools.pages .branch)
  · have hnone : n.pools.pages k = 0 := congrFun hpages k
    cases k
    · exact congrArg (· + 1) hnone
    · exact congrArg (· + 1) hnone

/-- A page that the initial entries suffice for. -/
theorem tagPages_succ (hy : y.Fresh) (hhigh : Aligned highest) (hlt : highest < 2 ^ 48)
    (hroom : 0 + count * 4096 + 4096 < highest) (hcount : count < 4095)
    {rest : List (Kind × ℕ)} (hm : tagPages y word highest count = .ok m)
    (h : SpineState y highest count m last rest free) :
    ∃ m', tagPages y word highest (count + 1) = .ok m' ∧
      ∃ last rest free, SpineState y highest (count + 1) m' last rest free := by
  obtain ⟨hspine, rfl, hholds, hbranches, hleaves, hnext, hpages⟩ := h
  obtain ⟨b, bs, hb⟩ := List.exists_cons_of_length_pos (show 0 < (free .branch).length by omega)
  obtain ⟨l, ls, hl⟩ := List.exists_cons_of_length_pos (show 0 < (free .leaf).length by omega)
  rw [hb, List.length_cons] at hbranches
  rw [hl, List.length_cons] at hleaves
  obtain ⟨r, rs, rfl⟩ := List.exists_cons_of_length_pos (show 0 < ls.length by omega)
  rw [List.length_cons] at hleaves
  set x := 0 + count * 4096 with hx
  obtain ⟨n₁, hrun₁, h₁, hnext₁, hpages₁⟩ := getFreeState_cons hholds hb
  have h₁' := h₁.setNode List.mem_cons_self (x + 4096) branchCode
  obtain ⟨n₂, hrun₂, h₂, hnext₂, hpages₂⟩ :=
    getFreeState_cons h₁' ((Function.update_of_ne (by decide) _ _).trans hl)
  have h₂' := h₂.setNode List.mem_cons_self (x + 4096) (stateCode .free)
  obtain ⟨n₃, hrun₃, h₃, hnext₃, hpages₃⟩ :=
    getFreeState_cons h₂' (Function.update_self Kind.leaf _ _)
  have h₃' := h₃.setNode List.mem_cons_self m.highestAddress (stateCode .free)
  have h₄ := (h₃'.perm (show List.Perm _
      ((.leaf, last) :: (.leaf, r) :: (.leaf, l) :: (.branch, b) :: rest) by
    rw [List.perm_iff_count]
    intro x
    simp only [List.count_cons]
    omega)).freeState hy
  have h₅ := h₄.setNode (List.mem_cons_of_mem _ List.mem_cons_self) (x + 4096) (stateCode .used)
  obtain ⟨t', hrun, hspine'⟩ :=
    hspine.tag (by decide) hhigh hlt hx hroom hrun₁ hrun₂ hrun₃
  refine ⟨⟨t', _, m.highestAddress⟩, ?_, r, _, _, hspine', rfl, h₅, ?_, ?_, fun k => ?_,
    fun k => ?_⟩
  · rw [tagPages_succ_eq, hm]
    unfold LinkedState.tagRange
    simp only [ok_bind, ← hx]
    rw [hrun]
    rfl
  · simp only [Function.update_self, Function.update_of_ne (show Kind.branch ≠ .leaf by decide)]
    omega
  · simp only [Function.update_self, List.length_cons]
    omega
  · have heq : n₃.pools.nextFreeHead = m.nodes.pools.nextFreeHead :=
      hnext₃.trans (hnext₂.trans hnext₁)
    exact (congrFun heq k).trans_ne (hnext k)
  · have heq : n₃.pools.pages = m.nodes.pools.pages := hpages₃.trans (hpages₂.trans hpages₁)
    exact (congrFun heq k).trans (hpages k)

theorem tagPages_spine (hy : y.Fresh) (word : ℕ → ℕ) (hhigh : Aligned highest) (hlt : highest < 2 ^ 48)
    (hroom : 4096 * 4096 < highest) (hcount : count ≤ 4095) :
    ∃ m, tagPages y word highest count = .ok m ∧
      ∃ last rest free, SpineState y highest count m last rest free := by
  induction count with
  | zero => exact tagPages_zero hy hhigh hlt
  | succ count ih =>
    obtain ⟨m, hm, last, rest, free, h⟩ := ih (by omega)
    exact tagPages_succ hy hhigh hlt (by omega) (by omega) hm h

/-- The page after the last initial branch: the first word of the page from rpmalloc
becomes the head of the free list. -/
theorem tagPages_refill (hy : y.Fresh) (word : ℕ → ℕ) (highest : ℕ) (hhigh : Aligned highest)
    (hlt : highest < 2 ^ 48)
    (hroom : 4096 * 4096 < highest) :
    ∃ m, tagPages y word highest 4096 = .ok m ∧
      m.nodes.pools.freeHead .branch = (y.rpmalloc .branch 0).words (y.table .branch 1) := by
  obtain ⟨m, hm, last, rest, free, h⟩ :=
    tagPages_spine hy word hhigh hlt hroom (le_refl 4095)
  obtain ⟨hspine, rfl, hholds, hbranches, -, hnext, hpages⟩ := h
  obtain ⟨_, n₁, hpages₁, hrun₁, hhead₁, hnext₁⟩ :=
    getFreeState_refill hy hholds (List.eq_nil_of_length_eq_zero hbranches) (hnext .branch)
  rw [hpages] at hpages₁
  obtain rfl := Nat.succ_injective hpages₁
  set x := 0 + 4095 * 4096 with hx
  have hleaf₁ : n₁.pools.nextFreeHead .leaf ≠ 0 :=
    (hnext₁ .leaf (by decide)).trans_ne (hnext .leaf)
  obtain ⟨l, n₂, hrun₂, hleaf₂, hhead₂, -⟩ :=
    getFreeState_next (n := n₁.setNode (y.table .branch 1) (x + 4096) branchCode) hy hleaf₁
  obtain ⟨r, n₃, hrun₃, -, hhead₃, -⟩ :=
    getFreeState_next (n := n₂.setNode l (x + 4096) (stateCode .free)) hy hleaf₂
  obtain ⟨t', hrun, -⟩ :=
    hspine.tag (by decide) hhigh hlt hx (by omega) hrun₁ hrun₂ hrun₃
  refine ⟨⟨t', ((n₃.setNode r m.highestAddress (stateCode .free)).freeLeafState last).setNode l
    (x + 4096) (stateCode .used), m.highestAddress⟩, ?_, ?_⟩
  · change tagPages y word m.highestAddress (4095 + 1) = _
    rw [tagPages_succ_eq, hm]
    unfold LinkedState.tagRange
    simp only [ok_bind, ← hx]
    rw [hrun]
    rfl
  · have hfreed : ((n₃.setNode r m.highestAddress (stateCode .free)).freeLeafState
        last).pools.freeHead .branch = n₃.pools.freeHead .branch :=
      freeState_freeHead (by decide)
    exact hfreed.trans ((hhead₃ .branch (by decide)).trans
      ((hhead₂ .branch (by decide)).trans hhead₁))

theorem reachable_tagPages (hm : tagPages y word highest count = .ok m) : Reachable y m := by
  induction count generalizing m with
  | zero =>
    rw [tagPages_zero_eq, bind_eq_ok] at hm
    obtain ⟨m₀, hinit, hpure⟩ := hm
    exact pure_eq_ok.mp hpure ▸ .initDynamic (.init hinit)
  | succ count ih =>
    rw [tagPages_succ_eq, bind_eq_ok] at hm
    obtain ⟨m₀, hm₀, hrun⟩ := hm
    exact .tagRange (ih hm₀) hrun

end Run

@[irreducible] def mebibyte (i : ℕ) : ℕ := i * 0x100000

/-- The tables of both kinds take turns, one in each MiB; rpmalloc leaves `w` in every word. -/
def filledLayout (w : ℕ) : Layout :=
  { initialEntries := fun
      | .leaf => 0x100000
      | .branch => 0x200000
    rpmalloc := fun k n =>
      { start := match k with
          | .leaf => mebibyte (2 * n + 3)
          | .branch => mebibyte (2 * n + 4)
        words := fun _ => w } }

theorem mebibyte_eq (i : ℕ) : mebibyte i = i * 0x100000 := by
  rw [mebibyte]

theorem filledLayout_table_page (w n : ℕ) :
    (filledLayout w).table .leaf (n + 1) = (2 * n + 3) * 0x100000 ∧
      (filledLayout w).table .branch (n + 1) = (2 * n + 4) * 0x100000 := by
  have hleaf : (filledLayout w).table .leaf (n + 1) = mebibyte (2 * n + 3) := rfl
  have hbranch : (filledLayout w).table .branch (n + 1) = mebibyte (2 * n + 4) := rfl
  rw [hleaf, hbranch, mebibyte_eq, mebibyte_eq]
  exact ⟨rfl, rfl⟩

theorem filledLayout_table (w : ℕ) (n : ℕ) :
    (filledLayout w).table .leaf n = (2 * n + 1) * 0x100000 ∧
      (filledLayout w).table .branch n = (2 * n + 2) * 0x100000 := by
  cases n with
  | zero =>
    have hleaf : (filledLayout w).table .leaf 0 = 0x100000 := rfl
    have hbranch : (filledLayout w).table .branch 0 = 0x200000 := rfl
    omega
  | succ n =>
    obtain ⟨hleaf, hbranch⟩ := filledLayout_table_page w n
    omega

theorem filledLayout_table_ge (w : ℕ) (k : Kind) (n : ℕ) :
    0x100000 ≤ (filledLayout w).table k n := by
  obtain ⟨hleaf, hbranch⟩ := filledLayout_table w n
  cases k
  · omega
  · omega

theorem filledLayout_fresh (w : ℕ) : (filledLayout w).Fresh := by
  refine ⟨fun k n => Nat.lt_of_lt_of_le (by decide) (filledLayout_table_ge w k n),
    fun k n k' n' a ⟨hle, hlt⟩ ⟨hle', hlt'⟩ => ?_⟩
  obtain ⟨hleaf, hbranch⟩ := filledLayout_table w n
  obtain ⟨hleaf', hbranch'⟩ := filledLayout_table w n'
  have hbytes : Kind.leaf.bytes = 0x8000 ∧ Kind.branch.bytes = 0x28000 := ⟨rfl, rfl⟩
  cases k <;> cases k'
  · exact ⟨rfl, by omega⟩
  · omega
  · omega
  · exact ⟨rfl, by omega⟩

end Enkel.NodePools
