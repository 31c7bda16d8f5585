import Enkel.ListPools
import Enkel.NodePoolRefill

/-!
Where the initial nodes are, as long as no node is asked for from a list that is empty. Every one
of them is a leaf of the tree, a branch of the tree or on one of the two free lists, and in only
one of these places. The branches, in the tree and on their list, have room for a branch; a leaf
may be such a node too, as the root is that Init takes.
-/
namespace Enkel.NodePools

open Outcome MemoryState IntrusiveList ListPools

/-- No call has found its list empty. -/
def Nodes.NeverEmpty (n : Nodes) : Prop := ∀ c ∈ n.calls, c.before.freeHead c.kind ≠ 0

instance : Fintype Kind := ⟨{.leaf, .branch}, fun k => by cases k <;> decide⟩

theorem sum_kind (f : Kind → Multiset ℕ) : ∑ k, f k = f .leaf + f .branch :=
  Finset.sum_pair (by decide)

/-- The initial entries of both tables. -/
def Layout.initialCells (y : Layout) : Multiset ℕ := ∑ k, (y.initialList k : Multiset ℕ)

/-- A branch needs an entry for branches, a leaf may have any. -/
def Layout.Suits (y : Layout) (k : Kind) (a : ℕ) : Prop := k = .branch → y.IsEntry .branch 0 a

/-- The initial entries are in `nodes` or on the lists, each where it suits. -/
structure Partitioned (y : Layout) (s : Pools) (nodes : List (Kind × ℕ))
    (free : Kind → List ℕ) : Prop where
  pooled : Pooled s.word s.freeHead free (nodes.map Prod.snd : Multiset ℕ) y.initialCells
  suits : ∀ x ∈ nodes, y.Suits x.1 x.2
  free_suits : ∀ k, ∀ a ∈ free k, y.Suits k a

def Owned (y : Layout) (n : Nodes) (nodes : List (Kind × ℕ)) : Prop :=
  n.NeverEmpty → ∃ free, Partitioned y n.pools nodes free

variable {y : Layout} {s : Pools} {n : Nodes} {nodes nodes' : List (Kind × ℕ)}
  {free : Kind → List ℕ} {k : Kind} {a : ℕ} {l : List ℕ}

section Initial

theorem Layout.mem_initialCells : a ∈ y.initialCells ↔ ∃ k, y.IsEntry k 0 a := by
  simp only [initialCells, Multiset.mem_sum, Finset.mem_univ, true_and, Multiset.mem_coe,
    mem_initialList]

theorem Layout.card_initialCells : Multiset.card y.initialCells = 8192 := by
  rw [initialCells, sum_kind, Multiset.card_add, Multiset.coe_card, Multiset.coe_card,
    length_initialList, length_initialList]
  rfl

theorem Layout.Fresh.nodup_initialCells (hy : y.Fresh) : y.initialCells.Nodup := by
  have hlisted := (holds_initPools hy fun _ => 0).listed
  rw [initialCells, sum_kind, Multiset.nodup_add, Multiset.disjoint_left]
  exact ⟨(hlisted.chain .leaf).nodup, (hlisted.chain .branch).nodup,
    fun ha => hlisted.separate .leaf .branch (by decide) _ ha⟩

theorem partitioned_initPools (hy : y.Fresh) (word : ℕ → ℕ) :
    Partitioned y (LinkedState.initPools y word) [] y.initialList :=
  ⟨⟨(holds_initPools hy word).listed.chain, zero_add _, hy.nodup_initialCells⟩, nofun,
    fun _ _ ha hk => Layout.mem_initialList.mp (hk ▸ ha)⟩

end Initial

section Steps

theorem Partitioned.ne_zero (hy : y.Fresh) (h : Partitioned y s nodes free)
    (ha : a ∈ nodes.map Prod.snd) : a ≠ 0 := by
  obtain ⟨k, hentry⟩ := Layout.mem_initialCells.mp (h.pooled.mem_of_used ha)
  exact (hy.pos_of_inTable hentry.inTable).ne'

theorem Partitioned.perm (h : Partitioned y s nodes free) (hperm : nodes.Perm nodes') :
    Partitioned y s nodes' free := by
  refine ⟨?_, fun x hx => h.suits x (hperm.mem_iff.mpr hx), h.free_suits⟩
  rw [← Multiset.coe_eq_coe.mpr (hperm.map Prod.snd)]
  exact h.pooled

theorem Partitioned.take (h : Partitioned y s nodes free) (hl : free k = a :: l) :
    Partitioned y { s with
      freeHead := Function.update s.freeHead k (s.word a)
      inUse := a :: s.inUse } ((k, a) :: nodes) (Function.update free k l) := by
  have hlist := hl ▸ h.free_suits k
  obtain ⟨hself, hrest⟩ := List.forall_mem_cons.mp hlist
  refine ⟨h.pooled.take hl, List.forall_mem_cons.mpr ⟨hself, h.suits⟩, ?_⟩
  apply (Function.forall_update_iff free fun k l => ∀ a ∈ l, y.Suits k a).mpr
  exact ⟨hrest, fun k _ => h.free_suits k⟩

theorem Partitioned.setNode (h : Partitioned y n.pools nodes free) (ha : a ∈ nodes.map Prod.snd)
    (address code : ℕ) : Partitioned y (n.setNode a address code).pools nodes free :=
  ⟨h.pooled.store ha _, h.suits, h.free_suits⟩

theorem Partitioned.freeState (hy : y.Fresh) (h : Partitioned y n.pools ((k, a) :: nodes) free) :
    Partitioned y (n.freeState k a).pools nodes (Function.update free k (a :: free k)) := by
  obtain ⟨hself, hrest⟩ := List.forall_mem_cons.mp h.suits
  refine ⟨h.pooled.give (h.ne_zero hy List.mem_cons_self), hrest, ?_⟩
  apply (Function.forall_update_iff free fun k l => ∀ a ∈ l, y.Suits k a).mpr
  exact ⟨List.forall_mem_cons.mpr ⟨hself, h.free_suits k⟩, fun k _ => h.free_suits k⟩

/-- A page from rpmalloc is none of the initial entries. -/
theorem Partitioned.allocate (hy : y.Fresh) (h : Partitioned y s nodes free) (k : Kind) :
    Partitioned y (s.allocateNewPage y k) nodes free := by
  refine ⟨h.pooled.congr fun a ha => Pools.allocate_word fun hin => ?_, h.suits, h.free_suits⟩
  obtain ⟨k', hentry⟩ := Layout.mem_initialCells.mp ha
  exact Nat.succ_ne_zero _ (hy.apart _ _ _ _ _ hin hentry.inTable).2

theorem getFreeState_owned (h : Owned y n nodes) :
    Meets (fun _ => True) (fun r => Owned y r.2 ((k, r.1) :: nodes)) (n.getFreeState y k) := by
  unfold Nodes.getFreeState
  dsimp only
  by_cases hempty : n.pools.freeHead k = 0
  · refine meets_require (fun _ => trivial) fun _ => meets_pure fun hnever => ?_
    exact absurd hempty (hnever _ List.mem_cons_self)
  · rw [if_neg hempty]
    refine meets_require (fun _ => trivial) fun _ => meets_pure fun hnever => ?_
    obtain ⟨free, hfree⟩ := h fun c hc => hnever c (List.mem_cons_of_mem _ hc)
    obtain ⟨l, hl, -⟩ := (hfree.pooled.chain k).exists_cons hempty
    exact ⟨_, hfree.take hl⟩

theorem owned_kept (hy : y.Fresh) : Kept y (Owned y) (fun _ => True) where
  perm := fun h hperm hnever => (h hnever).imp fun _ hfree => hfree.perm hperm
  halt := fun _ _ => trivial
  take := fun _ h => getFreeState_owned h
  store := fun h ha _ _ hnever => (h hnever).imp fun _ hfree => hfree.setNode ha _ _
  give := fun h hnever => (h hnever).elim fun _ hfree => ⟨_, hfree.freeState hy⟩

theorem Reachable.owned (hy : y.Fresh) {m : LinkedState} (hm : Reachable y m) :
    Owned y m.nodes m.stateRoot.nodes := by
  refine hm.kept (owned_kept hy) (fun word _ => ⟨_, partitioned_initPools hy word⟩)
    (fun h hnever => ?_) (fun k h hnever => (h hnever).imp fun _ hfree => hfree.allocate hy k)
  obtain ⟨free, hfree⟩ := h hnever
  exact ⟨free, hfree.pooled, List.forall_mem_cons.mpr
    ⟨nofun, (List.forall_mem_cons.mp hfree.suits).2⟩, hfree.free_suits⟩

end Steps

section Tree

/-- The nodes of one kind in a tree. -/
def TreeNode.nodesOf (t : TreeNode) (k : Kind) : List ℕ :=
  (t.nodes.filter fun x => x.1 = k).map Prod.snd

/-- A branch joins two trees. -/
theorem TreeNode.length_leaves (t : TreeNode) :
    (t.nodesOf .leaf).length = (t.nodesOf .branch).length + 1 := by
  induction t with
  | leaf => rfl
  | branch node address left right _ _ ihLeft ihRight =>
    simp only [nodesOf, List.length_map] at ihLeft ihRight
    simp only [nodesOf, nodes, List.filter_cons, List.filter_append, List.length_map,
      List.length_append, reduceCtorEq, decide_false, decide_true, if_true, Bool.false_eq_true,
      if_false, List.length_cons]
    omega

theorem TreeNode.nodesOf_perm (t : TreeNode) :
    (t.nodesOf .leaf ++ t.nodesOf .branch).Perm (t.nodes.map Prod.snd) := by
  have hbranch : t.nodes.filter (fun x => x.1 = .branch) =
      t.nodes.filter (fun x => !decide (x.1 = .leaf)) := by
    apply List.filter_congr
    intro x _
    cases x.1 <;> rfl
  unfold nodesOf
  rw [hbranch, ← List.map_append]
  exact (List.filter_append_perm _ t.nodes).map Prod.snd

theorem TreeNode.mem_nodesOf {t : TreeNode} : a ∈ t.nodesOf k ↔ (k, a) ∈ t.nodes := by
  simp [nodesOf]

end Tree

/-- The nodes of the tree, and those on two lists. -/
def LinkedState.nodeList (m : LinkedState) (leaves branches : List ℕ) : List ℕ :=
  m.stateRoot.nodesOf .leaf ++ m.stateRoot.nodesOf .branch ++ (leaves ++ branches)

/-- The tree and the lists that start at the heads share the initial entries among them: each
is in one of the four places and only there. -/
structure LinkedState.Partition (y : Layout) (m : LinkedState) (leaves branches : List ℕ) :
    Prop where
  leaves_chain : Chain m.nodes.pools.word (m.nodes.pools.freeHead .leaf) leaves
  branches_chain : Chain m.nodes.pools.word (m.nodes.pools.freeHead .branch) branches
  nodup : (m.nodeList leaves branches).Nodup
  mem_iff : ∀ a, a ∈ m.nodeList leaves branches ↔ ∃ k, y.IsEntry k 0 a
  length_eq : (m.nodeList leaves branches).length = 8192
  branch_entry : ∀ a ∈ m.stateRoot.nodesOf .branch ++ branches, y.IsEntry .branch 0 a
  length_leaves : (m.stateRoot.nodesOf .leaf).length = (m.stateRoot.nodesOf .branch).length + 1

section Runs
variable {m : LinkedState} {word : ℕ → ℕ} {highest count : ℕ} {p : Kind → ℕ}

theorem Partitioned.coe_nodeList (h : Partitioned y m.nodes.pools m.stateRoot.nodes free) :
    (m.nodeList (free .leaf) (free .branch) : Multiset ℕ) = y.initialCells := by
  have hsum := h.pooled.sum_eq
  rw [sum_kind, ← Multiset.coe_eq_coe.mpr m.stateRoot.nodesOf_perm] at hsum
  rw [← hsum]
  rfl

theorem Partitioned.partition (hy : y.Fresh)
    (h : Partitioned y m.nodes.pools m.stateRoot.nodes free) :
    m.Partition y (free .leaf) (free .branch) := by
  have hcells := h.coe_nodeList
  exact {
    leaves_chain := h.pooled.chain .leaf
    branches_chain := h.pooled.chain .branch
    nodup := Multiset.coe_nodup.mp (hcells ▸ hy.nodup_initialCells)
    mem_iff := fun a => by rw [← Multiset.mem_coe, hcells, Layout.mem_initialCells]
    length_eq := by rw [← Multiset.coe_card, hcells, Layout.card_initialCells]
    branch_entry := fun a ha => (List.mem_append.mp ha).elim
      (fun ha => h.suits _ (TreeNode.mem_nodesOf.mp ha) rfl) fun ha => h.free_suits .branch a ha rfl
    length_leaves := m.stateRoot.length_leaves }

/-- There are at least `p` pages, and if there are no more, no call has found its list empty. -/
def Unrefilled (p : Kind → ℕ) (n : Nodes) : Prop :=
  p ≤ n.pools.pages ∧ (n.pools.pages = p → n.NeverEmpty)

/-- A refill takes a page. -/
theorem unrefilled_kept (p : Kind → ℕ) :
    Kept y (fun n _ => Unrefilled p n) (fun _ => True) where
  perm := fun h _ => h
  halt := fun _ _ => trivial
  take := by
    intro n nodes k ⟨hle, hnever⟩
    unfold Nodes.getFreeState
    dsimp only
    refine meets_require (fun _ => trivial) fun _ => meets_pure ?_
    by_cases hempty : n.pools.freeHead k = 0
    · rw [if_pos hempty]
      have hmore : (n.pools.refill y k).pages k = n.pools.pages k + 1 := Function.update_self k _ _
      have hall : n.pools.pages ≤ (n.pools.refill y k).pages :=
        Pools.pages_le_allocate (y := y) (k := k)
      refine ⟨hle.trans hall, fun heq => ?_⟩
      have hsame : (n.pools.refill y k).pages k = p k := congrFun heq k
      have hlek : p k ≤ n.pools.pages k := hle k
      omega
    · rw [if_neg hempty]
      exact ⟨hle, fun heq => List.forall_mem_cons.mpr ⟨hempty, hnever heq⟩⟩
  store := fun h _ _ _ => h
  give := fun h => h

/-- InitDynamic takes a page of each kind. -/
theorem unrefilled_initDynamic (h : Unrefilled (fun _ => 0) m.nodes) :
    Unrefilled (fun _ => 1) (m.initDynamic y).nodes := by
  have hpages : ∀ k, (m.initDynamic y).nodes.pools.pages k = m.nodes.pools.pages k + 1 := by
    intro k
    cases k <;> rfl
  constructor
  · intro k
    rw [hpages]
    exact Nat.succ_pos _
  · intro heq
    apply h.2
    funext k
    have hone := congrFun heq k
    rw [hpages] at hone
    exact Nat.succ_injective hone

theorem tagPages_unrefilled (hm : tagPages y word highest count = .ok m) :
    Unrefilled (fun _ => 1) m.nodes := by
  induction count generalizing m with
  | zero =>
    rw [tagPages_zero_eq, bind_eq_ok] at hm
    obtain ⟨m₀, hinit, hpure⟩ := hm
    have hstart : Unrefilled (fun _ => 0) ⟨LinkedState.initPools y word, []⟩ :=
      ⟨fun k => Nat.zero_le _, fun _ => nofun⟩
    have hmeets := (unrefilled_kept fun _ => 0).init_meets hstart (fun h => h) highest
    exact pure_eq_ok.mp hpure ▸ unrefilled_initDynamic (hmeets.of_eq_ok hinit)
  | succ count ih =>
    rw [tagPages_succ_eq, bind_eq_ok] at hm
    obtain ⟨m₀, hm₀, hrun⟩ := hm
    exact ((unrefilled_kept fun _ => 1).tagRange_meets (ih hm₀) _ _ _).of_eq_ok hrun

end Runs

/-- In every state that Init, InitDynamic and TagRange lead to, as long as no node has been asked
for from an empty list: the lists behind the two heads end, and they and the tree have the 8192
initial nodes among them, each in one place. -/
theorem initial_nodes_partition (y : Layout) (hy : y.Fresh) (m : LinkedState)
    (hm : Reachable y m) (hnever : m.nodes.NeverEmpty) :
    ∃ leaves branches, m.Partition y leaves branches := by
  obtain ⟨free, hfree⟩ := hm.owned hy hnever
  exact ⟨free .leaf, free .branch, hfree.partition hy⟩

/-- The run that tags 4095 single pages takes all the branches. -/
theorem initial_nodes_partition_pages :
    ∃ m leaves branches, tagPages (filledLayout 0) (fun _ => 0) 0x100000000 4095 = .ok m ∧
      m.Partition (filledLayout 0) leaves branches := by
  have hfresh := filledLayout_fresh 0
  have hhigh : Aligned 0x100000000 := by decide
  obtain ⟨m, hm, _, _, _, hspine⟩ :=
    tagPages_spine hfresh (fun _ => 0) hhigh (by decide) (by decide) (le_refl 4095)
  have hnever := (tagPages_unrefilled hm).2 (funext hspine.pages)
  obtain ⟨leaves, branches, hpartition⟩ := initial_nodes_partition (filledLayout 0) hfresh m
    (reachable_tagPages hm) hnever
  exact ⟨m, leaves, branches, hm, hpartition⟩

end Enkel.NodePools
