import Enkel.NodePoolLists

/-!
The free lists over whole runs. Every function of the tree takes the nodes it needs
from the lists and gives back only nodes that it holds, so what these steps keep of the
storage holds after the function, with the nodes of the new tree in use. The page that a
refill swaps in is the one place where this rests on what rpmalloc has returned.
-/
namespace Enkel.NodePools

open Outcome MemoryState IntrusiveList

/-- `I` of the nodes and of those that are held is kept by every step of a function of the tree,
and `E` holds of a halt in between. -/
structure Kept (y : Layout) (I : Nodes → List (Kind × ℕ) → Prop) (E : Halt → Prop) : Prop where
  perm : ∀ {n nodes nodes'}, I n nodes → nodes.Perm nodes' → I n nodes'
  halt : ∀ {n nodes}, I n nodes → ∀ e, E ⟨e, n⟩
  take : ∀ {n nodes} k, I n nodes →
    Meets E (fun r => I r.2 ((k, r.1) :: nodes)) (n.getFreeState y k)
  store : ∀ {n nodes a}, I n nodes → a ∈ nodes.map Prod.snd → ∀ address code,
    I (n.setNode a address code) nodes
  give : ∀ {n nodes k a}, I n ((k, a) :: nodes) → I (n.freeState k a) nodes

variable {y : Layout} {s s' : Pools} {n : Nodes} {nodes nodes' rest : List (Kind × ℕ)}
  {free : Kind → List ℕ} {k : Kind} {a : ℕ} {I : Nodes → List (Kind × ℕ) → Prop} {E : Halt → Prop}

section Tree
variable {address low high outerLow outerHigh node splits : ℕ} {left right current : TreeNode}
  {state leafState : RangeState} {α : Type}

theorem mergeable_leaves (h : mergeable left right) :
    ∃ p a q b state, left = .leaf p a state ∧ right = .leaf q b state := by
  obtain ⟨hright, heq⟩ := h
  cases right with
  | branch => exact absurd rfl hright
  | leaf q b st' =>
    cases left with
    | branch => cases heq
    | leaf p a st =>
      cases heq
      exact ⟨p, a, q, b, _, rfl, rfl⟩

namespace Kept

/-- Only how often a node is listed counts. -/
theorem of_count (hkept : Kept y I E) (h : I n nodes)
    (hcount : ∀ x, nodes.count x = nodes'.count x) : I n nodes' :=
  hkept.perm h (List.perm_iff_count.mpr hcount)

theorem give_of_count (hkept : Kept y I E) (h : I n nodes) (nodes' : List (Kind × ℕ))
    (hcount : ∀ x, nodes.count x = ((k, a) :: nodes').count x) : I (n.freeState k a) nodes' :=
  hkept.give (hkept.of_count h hcount)

theorem meets_check (hkept : Kept y I E) (h : I n nodes) {x : Except Fault α} {β : Type}
    {Q : β → Prop} {f : α → Except Halt β} (hf : ∀ a, Meets E Q (f a)) :
    Meets E Q (n.check x >>= f) := by
  cases x with
  | ok a => exact hf a
  | error e => exact meets_error (hkept.halt h e)

/-- The two leaves and the branch are given back for the leaf that was taken. -/
theorem updateNode_meets (hkept : Kept y I E)
    (h : I n ((.branch, node) :: (left.nodes ++ right.nodes) ++ rest)) :
    Meets E (fun r => I r.2 (r.1.nodes ++ rest))
      (updateNode y node address left right outerLow outerHigh n) := by
  have hkeep : Meets E (fun r : TreeNode × Nodes => I r.2 (r.1.nodes ++ rest))
      (n.check (summary address left right outerLow outerHigh) >>= fun r =>
        pure (.branch node address left right r.1 r.2, n)) :=
    hkept.meets_check h fun r => meets_pure h
  unfold updateNode
  cases hstate : left.leafState with
  | none => exact hkeep
  | some state =>
    dsimp only
    by_cases hmerge : mergeable left right
    · rw [if_pos hmerge]
      obtain ⟨p, a, q, b, st, rfl, rfl⟩ := mergeable_leaves hmerge
      refine meets_bind (hkept.take _ h) fun ⟨newNode, n₁⟩ h₁ => meets_pure ?_
      have h₂ := hkept.store h₁ List.mem_cons_self outerHigh (stateCode state)
      refine (hkept.give (hkept.give
        (hkept.give_of_count h₂ ((.leaf, p) :: (.leaf, q) :: (.leaf, newNode) :: rest)
          fun x => ?_)))
      simp only [TreeNode.nodes, List.count_cons, List.count_append, List.count_nil]
      omega
    · rw [if_neg hmerge]
      exact hkeep

theorem tagLeaf_meets (hkept : Kept y I E) (h : I n ((.leaf, node) :: rest)) :
    Meets E (fun r => I r.2 (r.1.nodes ++ rest))
      (tagLeaf y splits node address leafState low high state outerLow outerHigh n) := by
  induction splits generalizing node address leafState low high state outerLow outerHigh n rest with
  | zero =>
    unfold tagLeaf
    refine hkept.meets_check h fun _ => ?_
    refine meets_require (fun _ => hkept.halt h _) fun _ => ?_
    refine meets_require (fun _ => hkept.halt h _) fun _ => ?_
    refine meets_ite (fun _ => ?_) fun _ => ?_
    · exact meets_ite (fun _ => meets_pure h) fun _ => meets_throw (hkept.halt h _)
    · refine meets_require (fun _ => hkept.halt h _) fun _ => ?_
      exact meets_pure (hkept.store h List.mem_cons_self _ _)
  | succ splits ih =>
    unfold tagLeaf
    refine hkept.meets_check h fun _ => ?_
    refine meets_require (fun _ => hkept.halt h _) fun _ => ?_
    refine meets_require (fun _ => hkept.halt h _) fun _ => ?_
    refine meets_ite (fun _ => ?_) fun _ => ?_
    · refine meets_ite (fun _ => meets_pure h) fun _ => ?_
      -- the three nodes of the split are taken, and the old leaf is given back
      refine meets_bind (hkept.take _ h) fun ⟨newBranch, n₁⟩ h₁ => ?_
      have hb := hkept.store h₁ List.mem_cons_self (if low = outerLow then high else low) branchCode
      refine meets_require (fun _ => hkept.halt hb _) fun _ => ?_
      refine meets_bind (hkept.take _ hb) fun ⟨newLeft, n₂⟩ h₂ => ?_
      have hl := hkept.store h₂ List.mem_cons_self (if low = outerLow then high else low)
        (stateCode leafState)
      refine meets_require (fun _ => hkept.halt hl _) fun _ => ?_
      refine meets_require (fun _ => hkept.halt hl _) fun _ => ?_
      refine meets_bind (hkept.take _ hl) fun ⟨newRight, n₃⟩ h₃ => ?_
      have hr := hkept.store h₃ List.mem_cons_self address (stateCode leafState)
      have hsplit : I ((n₃.setNode newRight address (stateCode leafState)).freeState .leaf node)
          ((.branch, newBranch) :: (.leaf, newLeft) :: (.leaf, newRight) :: rest) := by
        refine hkept.give_of_count hr _ fun x => ?_
        simp only [List.count_cons]
        omega
      -- one of the two new leaves is tagged
      refine meets_bind (R := fun r : TreeNode × TreeNode × Nodes =>
        I r.2.2 ((.branch, newBranch) :: (r.1.nodes ++ r.2.1.nodes) ++ rest))
        (meets_ite (fun _ => ?_) fun _ => meets_ite (fun _ => ?_) fun _ => ?_)
        fun ⟨left, right, n₄⟩ h₄ => ?_
      · refine meets_bind (ih (hkept.perm hsplit (List.Perm.swap _ _ _))) fun ⟨left, n₄⟩ h₄ => ?_
        refine meets_pure (hkept.of_count h₄ fun x => ?_)
        simp only [TreeNode.nodes, List.count_cons, List.count_append, List.count_nil]
        omega
      · refine meets_require (fun _ => hkept.halt hsplit _) fun _ => ?_
        have hcount : ∀ x : Kind × ℕ,
            ((.branch, newBranch) :: (.leaf, newLeft) :: (.leaf, newRight) :: rest).count x =
              ((.leaf, newRight) :: (.branch, newBranch) :: (.leaf, newLeft) :: rest).count x := by
          intro x
          simp only [List.count_cons]
          omega
        refine meets_bind (ih (hkept.of_count hsplit hcount)) fun ⟨right, n₄⟩ h₄ => ?_
        refine meets_pure (hkept.of_count h₄ fun x => ?_)
        simp only [TreeNode.nodes, List.count_cons, List.count_append, List.count_nil]
        omega
      · exact meets_throw (hkept.halt hsplit _)
      · refine meets_require (fun _ => hkept.halt h₄ _) fun _ => ?_
        refine meets_bind (hkept.updateNode_meets h₄) fun ⟨newNode, n₅⟩ h₅ => ?_
        exact meets_require (fun _ => hkept.halt h₅ _) fun _ => meets_pure h₅
    · refine meets_require (fun _ => hkept.halt h _) fun _ => ?_
      exact meets_pure (hkept.store h List.mem_cons_self _ _)

theorem tagRangeInternal_meets (hkept : Kept y I E) (h : I n (current.nodes ++ rest)) :
    Meets E (fun r => I r.2 (r.1.nodes ++ rest))
      (tagRangeInternal y current low high state outerLow outerHigh n) := by
  induction current generalizing low high outerLow outerHigh n rest with
  | leaf node address leafState => exact hkept.tagLeaf_meets h
  | branch node address left right _ _ ihLeft ihRight =>
    unfold tagRangeInternal
    refine hkept.meets_check h fun _ => ?_
    refine meets_require (fun _ => hkept.halt h _) fun _ => ?_
    refine meets_require (fun _ => hkept.halt h _) fun _ => ?_
    have hleft : I n (left.nodes ++ ((.branch, node) :: right.nodes ++ rest)) := by
      refine hkept.of_count h fun x => ?_
      simp only [TreeNode.nodes, List.count_cons, List.count_append]
      omega
    have hback : ∀ {left : TreeNode} {n : Nodes},
        I n (left.nodes ++ ((.branch, node) :: right.nodes ++ rest)) →
        I n (right.nodes ++ ((.branch, node) :: left.nodes ++ rest)) := by
      intro left n h
      refine hkept.of_count h fun x => ?_
      simp only [List.count_cons, List.count_append]
      omega
    have hfinal : ∀ {left right : TreeNode} {n : Nodes},
        I n (right.nodes ++ ((.branch, node) :: left.nodes ++ rest)) →
        I n ((.branch, node) :: (left.nodes ++ right.nodes) ++ rest) := by
      intro left right n h
      refine hkept.of_count h fun x => ?_
      simp only [List.count_cons, List.count_append]
      omega
    refine meets_bind (R := fun r : TreeNode × TreeNode × Nodes =>
      I r.2.2 ((.branch, node) :: (r.1.nodes ++ r.2.1.nodes) ++ rest))
      (meets_ite (fun _ => ?_) fun _ => meets_ite (fun _ => ?_) fun _ => ?_)
      fun ⟨left, right, n'⟩ h' => hkept.updateNode_meets h'
    · refine meets_bind (ihLeft hleft) fun ⟨left, n₁⟩ h₁ => ?_
      exact meets_pure (hfinal (hback h₁))
    · refine meets_bind (ihRight (hback hleft)) fun ⟨right, n₁⟩ h₁ => ?_
      exact meets_pure (hfinal h₁)
    · refine meets_bind (ihLeft hleft) fun ⟨left, n₁⟩ h₁ => ?_
      refine meets_bind (ihRight (hback h₁)) fun ⟨right, n₂⟩ h₂ => ?_
      exact meets_pure (hfinal h₂)

theorem tagRange_meets (hkept : Kept y I E) {m : LinkedState} (h : I m.nodes m.stateRoot.nodes)
    (low high : ℕ) (state : RangeState) :
    Meets E (fun m' => I m'.nodes m'.stateRoot.nodes) (m.tagRange y low high state) := by
  rw [← List.append_nil m.stateRoot.nodes] at h
  refine meets_bind (hkept.tagRangeInternal_meets h) fun ⟨root, n⟩ h' => meets_pure ?_
  rwa [List.append_nil] at h'

end Kept

end Tree

/-- Following the links from the heads visits only unused nodes, and ends. -/
def Pools.ListsSound (y : Layout) (s : Pools) : Prop :=
  ∀ k, ∃ l, Chain s.word (s.freeHead k) l ∧ ∀ a ∈ l, s.IsNode y k a ∧ a ∉ s.inUse

/-- The node that was handed out is an entry of a table, was not in use, and is on no
list any more. -/
structure Call.Sound (y : Layout) (c : Call) : Prop where
  isNode : c.after.IsNode y c.kind c.node
  unused : c.node ∉ c.before.inUse
  unlisted : ∀ k l, Chain c.after.word (c.after.freeHead k) l → c.node ∉ l
  lists : c.after.ListsSound y

/-- If no refill has taken a page without a list: `nodes` are in use, and every call so
far was sound. -/
def Held (y : Layout) (n : Nodes) (nodes : List (Kind × ℕ)) : Prop :=
  n.pools.RefillsLinked y → (∃ free, Holds y n.pools nodes free) ∧ ∀ c ∈ n.calls, c.Sound y

def HaltSound (y : Layout) (h : Halt) : Prop :=
  h.nodes.pools.RefillsLinked y → ∀ c ∈ h.nodes.calls, c.Sound y

section Calls

theorem Pools.RefillsLinked.mono (h : s'.RefillsLinked y) (hpages : s.pages ≤ s'.pages) :
    s.RefillsLinked y :=
  fun k n hn => h k n (Nat.lt_of_lt_of_le hn (hpages k))

theorem Holds.not_mem_inUse (h : Holds y s nodes free) (ha : a ∈ free k) : a ∉ s.inUse :=
  fun hmem => h.listed.unused k a ha (h.listed.inUse.mem_iff.mp hmem)

theorem Holds.listsSound (h : Holds y s nodes free) : s.ListsSound y :=
  fun k => ⟨free k, h.listed.chain k, fun a ha =>
    ⟨h.listed.free_isNode k a ha, h.not_mem_inUse ha⟩⟩

theorem Holds.unlisted (h : Holds y s ((k, a) :: nodes) free) (k' : Kind) (l : List ℕ)
    (hl : Chain s.word (s.freeHead k') l) : a ∉ l := by
  rw [hl.unique (h.listed.chain k')]
  exact fun hmem => h.listed.unused k' a hmem List.mem_cons_self

theorem Held.halt (h : Held y n nodes) (e : Fault) : HaltSound y ⟨e, n⟩ :=
  fun hlinked => (h hlinked).2

theorem Held.perm (h : Held y n nodes) (hperm : nodes.Perm nodes') : Held y n nodes' :=
  fun hlinked => (h hlinked).imp_left fun ⟨free, hfree⟩ => ⟨free, hfree.perm hperm⟩

theorem Holds.setNode (h : Holds y n.pools nodes free) (ha : a ∈ nodes.map Prod.snd)
    (address code : ℕ) : Holds y (n.setNode a address code).pools nodes free :=
  h.store ha _

theorem Holds.freeState (hy : y.Fresh) (h : Holds y n.pools ((k, a) :: nodes) free) :
    Holds y (n.freeState k a).pools nodes (Function.update free k (a :: free k)) :=
  h.push hy

theorem Held.setNode (h : Held y n nodes) (ha : a ∈ nodes.map Prod.snd) (address code : ℕ) :
    Held y (n.setNode a address code) nodes :=
  fun hlinked => (h hlinked).imp_left fun ⟨free, hfree⟩ =>
    ⟨free, hfree.setNode ha address code⟩

theorem Held.freeState (hy : y.Fresh) (h : Held y n ((k, a) :: nodes)) :
    Held y (n.freeState k a) nodes :=
  fun hlinked => (h hlinked).imp_left fun ⟨_, hfree⟩ => ⟨_, hfree.freeState hy⟩

/-- The list from which the next node is taken. -/
theorem Held.ready (hy : y.Fresh) (h : Held y n nodes)
    (hs : s = if n.pools.freeHead k = 0 then n.pools.refill y k else n.pools) :
    n.pools.pages ≤ s.pages ∧ s.inUse = n.pools.inUse ∧
      (s.freeHead k ≠ 0 → s.RefillsLinked y → ∃ free, Holds y s nodes free) := by
  split_ifs at hs with hempty
  · subst hs
    have hpages : n.pools.pages ≤ (n.pools.refill y k).pages :=
      Pools.pages_le_allocate (y := y) (k := k)
    refine ⟨hpages, rfl, fun hhead hlinked => ?_⟩
    obtain ⟨⟨free, hfree⟩, -⟩ := h (hlinked.mono hpages)
    have hnext : n.pools.nextFreeHead k ≠ 0 := by
      have heq : (n.pools.refill y k).freeHead k = n.pools.nextFreeHead k :=
        Function.update_self k _ _
      rwa [heq] at hhead
    obtain ⟨l, -, hrefilled⟩ :=
      hfree.refill hy ((hfree.listed.chain k).eq_nil hempty) hnext hlinked
    exact ⟨_, hrefilled⟩
  · subst hs
    exact ⟨le_rfl, rfl, fun _ hlinked => (h hlinked).1⟩

theorem getFreeState_meets (hy : y.Fresh) (h : Held y n nodes) :
    Meets (HaltSound y) (fun r => Held y r.2 ((k, r.1) :: nodes)) (n.getFreeState y k) := by
  obtain ⟨hpages, hinUse, hready⟩ := h.ready (k := k) hy rfl
  unfold Nodes.getFreeState
  dsimp only
  generalize (if n.pools.freeHead k = 0 then n.pools.refill y k else n.pools) = s
    at hpages hinUse hready
  refine meets_require (fun _ hlinked => (h (hlinked.mono hpages)).2) fun hhead => ?_
  refine meets_pure fun hlinked => ?_
  obtain ⟨free, hfree⟩ := hready hhead hlinked
  obtain ⟨l, hl, -⟩ := (hfree.listed.chain k).exists_cons hhead
  obtain ⟨-, -, hpop⟩ := hfree.pop hl
  have hmem : s.freeHead k ∈ free k := hl ▸ List.mem_cons_self
  refine ⟨⟨_, hpop⟩, List.forall_mem_cons.mpr ⟨?_, (h (hlinked.mono hpages)).2⟩⟩
  exact {
    isNode := hpop.listed.isNode _ List.mem_cons_self
    unused := fun hin => hfree.not_mem_inUse hmem (hinUse ▸ hin)
    unlisted := hpop.unlisted
    lists := hpop.listsSound }

/-- What is held stays held. -/
theorem held_kept (hy : y.Fresh) : Kept y (Held y) (HaltSound y) where
  perm := Held.perm
  halt := Held.halt
  take := fun _ h => getFreeState_meets hy h
  store := Held.setNode
  give := Held.freeState hy

end Calls

section Init

theorem linkEntries_word {start size count head a : ℕ} {word : ℕ → ℕ}
    (h : ∀ i < count, a ≠ start + size * i) :
    (linkEntries start size count head word).2 a = word a := by
  induction count generalizing head word with
  | zero => rw [linkEntries]
  | succ i ih =>
    rw [linkEntries, ih fun j hj => h j (Nat.lt_succ_of_lt hj)]
    exact Function.update_of_ne (h i (Nat.lt_succ_self i)) _ _

/-- The entries are linked in their order, in front of the list there was. -/
theorem linkEntries_chain {start size count head : ℕ} {word : ℕ → ℕ} {l : List ℕ}
    (hstart : 0 < start) (hsize : 0 < size) (h : Chain word head l)
    (hl : ∀ i < count, start + size * i ∉ l) :
    Chain (linkEntries start size count head word).2 (linkEntries start size count head word).1
      ((List.range count).map (fun i => start + size * i) ++ l) := by
  induction count generalizing head word l with
  | zero =>
    rw [linkEntries]
    exact h
  | succ i ih =>
    have hpush := h.push (show start + size * i ≠ 0 by omega) (hl i (Nat.lt_succ_self i))
    rw [linkEntries, List.range_succ, List.map_append, List.append_assoc]
    refine ih hpush fun j hj hmem => ?_
    rcases List.mem_cons.mp hmem with heq | hmem
    · have hlt := Nat.mul_lt_mul_of_pos_left hj hsize
      exact absurd (Nat.add_left_cancel heq) hlt.ne
    · exact hl j (Nat.lt_succ_of_lt hj) hmem

/-- The entries of the initial tables, in their order. -/
@[irreducible] def Layout.initialList (y : Layout) (k : Kind) : List ℕ :=
  (List.range k.tableEntries).map (y.entry k 0)

theorem Layout.mem_initialList : a ∈ y.initialList k ↔ y.IsEntry k 0 a := by
  unfold initialList IsEntry
  simp only [List.mem_map, List.mem_range, eq_comm]

theorem linkEntries_initialList (hy : y.Fresh) (k : Kind) (word : ℕ → ℕ) :
    Chain (linkEntries (y.initialEntries k) k.size k.tableEntries 0 word).2
      (linkEntries (y.initialEntries k) k.size k.tableEntries 0 word).1 (y.initialList k) := by
  have hsize : 0 < k.size := by cases k <;> decide
  unfold Layout.initialList
  rw [← List.append_nil (List.map _ _)]
  exact linkEntries_chain (hy.table_pos k 0) hsize rfl fun _ _ => List.not_mem_nil

theorem holds_initPools (hy : y.Fresh) (word : ℕ → ℕ) :
    Holds y (LinkedState.initPools y word) [] y.initialList := by
  have hleaves := linkEntries_initialList hy .leaf word
  refine ⟨⟨fun k => ?_, List.nodup_nil, List.Perm.refl _, nofun, fun k a ha => ?_,
    fun _ _ _ => List.not_mem_nil, fun k k' hk a ha ha' => ?_⟩, fun k => Or.inl rfl⟩
  · cases k with
    | leaf =>
      refine hleaves.congr fun a ha => linkEntries_word fun i hi heq => ?_
      have hin := (Layout.mem_initialList.mp ha).inTable
      have hin' : y.InTable .branch 0 a := Layout.IsEntry.inTable ⟨i, hi, heq⟩
      exact absurd (hy.apart _ _ _ _ _ hin hin').1 (by decide)
    | branch => exact linkEntries_initialList hy .branch _
  · exact ⟨k, 0, Nat.zero_le _, id, Layout.mem_initialList.mp ha⟩
  · exact hk (hy.apart _ _ _ _ _ (Layout.mem_initialList.mp ha).inTable
      (Layout.mem_initialList.mp ha').inTable).1

/-- An entry for a branch may be used as a leaf, as Init does for the root. -/
theorem Holds.asLeaf (h : Holds y s ((k, a) :: nodes) free) :
    Holds y s ((.leaf, a) :: nodes) free := by
  obtain ⟨ha, hnodes⟩ := List.forall_mem_cons.mp h.listed.isNode
  exact ⟨{ h.listed with isNode := List.forall_mem_cons.mpr ⟨ha.leaf, hnodes⟩ }, h.prepared⟩

theorem Held.asLeaf (h : Held y n ((k, a) :: nodes)) : Held y n ((.leaf, a) :: nodes) :=
  fun hlinked => (h hlinked).imp_left fun ⟨free, hfree⟩ => ⟨free, hfree.asLeaf⟩

theorem Held.allocate (hy : y.Fresh) (h : Held y n nodes) (k : Kind) :
    Held y { n with pools := n.pools.allocateNewPage y k } nodes :=
  fun hlinked => (h (hlinked.mono Pools.pages_le_allocate)).imp_left
    fun ⟨free, hfree⟩ => ⟨free, hfree.allocate hy k⟩

end Init

/-- The states that Init, InitDynamic and TagRange lead to. -/
inductive Reachable (y : Layout) : LinkedState → Prop
  | init {word : ℕ → ℕ} {highest : ℕ} {m : LinkedState}
      (h : LinkedState.init y word highest = .ok m) : Reachable y m
  | initDynamic {m : LinkedState} (hm : Reachable y m) : Reachable y (m.initDynamic y)
  | tagRange {m m' : LinkedState} {low high : ℕ} {state : RangeState} (hm : Reachable y m)
      (h : m.tagRange y low high state = .ok m') : Reachable y m'

section Runs
variable {m : LinkedState}

/-- The root is a node for a branch, used as a leaf. -/
theorem Kept.init_meets (hkept : Kept y I E) {word : ℕ → ℕ}
    (hstart : I ⟨LinkedState.initPools y word, []⟩ [])
    (hleaf : ∀ {n a nodes}, I n ((.branch, a) :: nodes) → I n ((.leaf, a) :: nodes))
    (highest : ℕ) :
    Meets E (fun m => I m.nodes m.stateRoot.nodes) (LinkedState.init y word highest) := by
  refine meets_bind (hkept.take _ hstart) fun ⟨root, n⟩ h => meets_pure ?_
  exact hleaf (hkept.store h List.mem_cons_self _ _)

/-- What the steps keep holds in every state that is reached, if it holds of the lists that Init
builds and no page from rpmalloc breaks it. -/
theorem Reachable.kept (hm : Reachable y m) (hkept : Kept y I E)
    (hstart : ∀ word, I ⟨LinkedState.initPools y word, []⟩ [])
    (hleaf : ∀ {n a nodes}, I n ((.branch, a) :: nodes) → I n ((.leaf, a) :: nodes))
    (hallocate : ∀ {n nodes} k, I n nodes →
      I { n with pools := n.pools.allocateNewPage y k } nodes) :
    I m.nodes m.stateRoot.nodes := by
  induction hm with
  | init h => exact (hkept.init_meets (hstart _) hleaf _).of_eq_ok h
  | initDynamic _ ih => exact hallocate .branch (hallocate .leaf ih)
  | tagRange _ h ih => exact (hkept.tagRange_meets ih _ _ _).of_eq_ok h

theorem Reachable.held (hy : y.Fresh) (hm : Reachable y m) :
    Held y m.nodes m.stateRoot.nodes :=
  hm.kept (held_kept hy) (fun word _ => ⟨⟨_, holds_initPools hy word⟩, nofun⟩) Held.asLeaf
    (fun k h => h.allocate hy k)

end Runs

end Enkel.NodePools
