import Enkel.MemoryState
import Enkel.IntrusiveList

/-!
The storage of the tree nodes of state.h and state.cpp. A free node keeps the
pointer to the next free node in its first word, where a node of the tree keeps
its address and its state. When a list is used up, the page prepared before takes
its place and rpmalloc is asked for the next one; nothing writes links into it.
rpmalloc returns memory with any contents, and returns without calling back. Only
the first words of nodes are in the memory here; the other words of a branch are
fields of its constructor.
-/
namespace Enkel.NodePools

open Outcome MemoryState

/-- Leaves and branches have a free list each. -/
inductive Kind
  | leaf
  | branch
deriving DecidableEq, Repr

/-- sizeof(StateNode) and sizeof(BranchStateNode). -/
def Kind.size : Kind → ℕ
  | .leaf => 8
  | .branch => 40

def Kind.tableEntries : Kind → ℕ
  | .leaf => initialLeafTableEntries
  | .branch => initialBranchTableEntries

def Kind.bytes (k : Kind) : ℕ := k.size * k.tableEntries

def Kind.site : Kind → Site
  | .leaf => .getFreeLeafState
  | .branch => .getFreeBranchState

/-- A page from rpmalloc, and the first words of the nodes that fit in it. -/
structure Page where
  start : ℕ
  words : ℕ → ℕ

/-- Where InitialLeafEntries and InitialBranchEntries lie, and what the calls of
rpmalloc will return. -/
structure Layout where
  initialEntries : Kind → ℕ
  rpmalloc : Kind → ℕ → Page

/-- The initial entries, and then the pages in the order of the calls. -/
def Layout.table (y : Layout) (k : Kind) : ℕ → ℕ
  | 0 => y.initialEntries k
  | n + 1 => (y.rpmalloc k n).start

def Layout.entry (y : Layout) (k : Kind) (n i : ℕ) : ℕ := y.table k n + k.size * i

/-- The members of MemoryState that store nodes. `pages` counts the pages that
rpmalloc has returned, `inUse` lists the nodes handed out and not given back. -/
structure Pools where
  word : ℕ → ℕ
  freeHead : Kind → ℕ
  nextFreeHead : Kind → ℕ
  pages : Kind → ℕ
  inUse : List ℕ

/-- A node handed out, with the storage before and after. -/
structure Call where
  kind : Kind
  node : ℕ
  before : Pools
  after : Pools

structure Nodes where
  pools : Pools
  calls : List Call

/-- The kernel halts in an assertion or an access. -/
structure Halt where
  fault : Fault
  nodes : Nodes

/-- `State` as stored in the two lowest bits. -/
def stateCode : RangeState → ℕ
  | .free => 0
  | .reserved => 1
  | .used => 2

def branchCode : ℕ := 3

namespace Pools

def allocateNewPage (y : Layout) (k : Kind) (s : Pools) : Pools :=
  let page := y.rpmalloc k (s.pages k)
  { s with
    word := fun a => if page.start ≤ a ∧ a < page.start + k.bytes then page.words a else s.word a
    nextFreeHead := Function.update s.nextFreeHead k page.start
    pages := Function.update s.pages k (s.pages k + 1) }

def allocateNewLeafPage (y : Layout) (s : Pools) : Pools := s.allocateNewPage y .leaf

def allocateNewBranchPage (y : Layout) (s : Pools) : Pools := s.allocateNewPage y .branch

def initDynamic (y : Layout) (s : Pools) : Pools :=
  (s.allocateNewLeafPage y).allocateNewBranchPage y

/-- The prepared page becomes the free list. -/
def refill (y : Layout) (k : Kind) (s : Pools) : Pools :=
  { s with freeHead := Function.update s.freeHead k (s.nextFreeHead k) }.allocateNewPage y k

end Pools

namespace Nodes

/-- GetFreeLeafState and GetFreeBranchState. -/
def getFreeState (y : Layout) (k : Kind) (n : Nodes) : Except Halt (ℕ × Nodes) := do
  let s := if n.pools.freeHead k = 0 then n.pools.refill y k else n.pools
  let result := s.freeHead k
  require (result ≠ 0) ⟨.nullPointer k.site, { n with pools := s }⟩
  let after :=
    { s with
      freeHead := Function.update s.freeHead k (s.word result)
      inUse := result :: s.inUse }
  return (result, { pools := after, calls := ⟨k, result, n.pools, after⟩ :: n.calls })

def getFreeLeafState (y : Layout) (n : Nodes) : Except Halt (ℕ × Nodes) := n.getFreeState y .leaf

def getFreeBranchState (y : Layout) (n : Nodes) : Except Halt (ℕ × Nodes) :=
  n.getFreeState y .branch

/-- FreeLeafState and FreeStateBranch. The link is stored over the cleared node. -/
def freeState (k : Kind) (n : Nodes) (node : ℕ) : Nodes :=
  { n with
    pools :=
      { n.pools with
        word := Function.update n.pools.word node (n.pools.freeHead k)
        freeHead := Function.update n.pools.freeHead k node
        inUse := n.pools.inUse.erase node } }

def freeLeafState (n : Nodes) (node : ℕ) : Nodes := n.freeState .leaf node

def freeStateBranch (n : Nodes) (node : ℕ) : Nodes := n.freeState .branch node

/-- SetAddress, and the store to `State`. -/
def setNode (n : Nodes) (node address code : ℕ) : Nodes :=
  { n with
    pools :=
      { n.pools with word := Function.update n.pools.word node (setAddress address ||| code) } }

/-- An assertion that fails halts with the nodes as they are. -/
def check {α : Type} (n : Nodes) : Except Fault α → Except Halt α
  | .ok a => .ok a
  | .error e => .error ⟨e, n⟩

end Nodes

/-- A tree node, with the pointer to it. -/
inductive TreeNode
  | leaf (node : ℕ) (address : ℕ) (state : RangeState)
  | branch (node : ℕ) (address : ℕ) (left right : TreeNode) (remaining largest : ℕ)
deriving DecidableEq, Repr

namespace TreeNode

def ptr : TreeNode → ℕ
  | .leaf node _ _ => node
  | .branch node _ _ _ _ _ => node

/-- The state of a leaf; `none` stands for the tag `Branch`. -/
def leafState : TreeNode → Option RangeState
  | .leaf _ _ state => some state
  | .branch _ _ _ _ _ _ => none

/-- The nodes of a tree, with the kind of each. -/
def nodes : TreeNode → List (Kind × ℕ)
  | .leaf node _ _ => [(.leaf, node)]
  | .branch node _ left right _ _ => (.branch, node) :: (left.nodes ++ right.nodes)

end TreeNode

def getRemaining (node : TreeNode) (outerLow outerHigh : ℕ) : Except Fault ℕ :=
  match node with
  | .branch _ _ _ _ remaining _ => .ok remaining
  | .leaf _ _ .free => do
    require (sub64 outerHigh outerLow > 0) (.assertion .getRemaining "Found empty node")
    return sub64 outerHigh outerLow
  | .leaf _ _ _ => .ok 0

def getLargestFree (node : TreeNode) (outerLow outerHigh : ℕ) : Except Fault ℕ :=
  match node with
  | .branch _ _ _ _ _ largest => .ok largest
  | .leaf _ _ .free => do
    require (sub64 outerHigh outerLow > 0) (.assertion .getLargestFree "Found empty node")
    return sub64 outerHigh outerLow
  | .leaf _ _ _ => .ok 0

/-- The numbers that UpdateNode stores in a branch that stays: what remains, and
the largest free leaf. -/
def summary (address : ℕ) (left right : TreeNode) (outerLow outerHigh : ℕ) :
    Except Fault (ℕ × ℕ) := do
  let largestLeft ← getLargestFree left outerLow address
  let largestRight ← getLargestFree right address outerHigh
  require (sub64 outerHigh outerLow > 0) (.assertion .updateNode "Encountered empty block")
  let remainingLeft ← getRemaining left outerLow address
  let remainingRight ← getRemaining right address outerHigh
  let largest := if largestLeft > largestRight then largestLeft else largestRight
  return (add64 remainingLeft remainingRight, largest)

/-- The test of UpdateNode: the right child is a leaf and the left child has its state. -/
def mergeable (left right : TreeNode) : Prop :=
  right.leafState ≠ none ∧ left.leafState = right.leafState

instance (left right : TreeNode) : Decidable (mergeable left right) :=
  inferInstanceAs (Decidable (_ ∧ _))

/-- UpdateNode for the branch at `node` with the given address and children. -/
def updateNode (y : Layout) (node address : ℕ) (left right : TreeNode) (outerLow outerHigh : ℕ)
    (n : Nodes) : Except Halt (TreeNode × Nodes) := do
  match left.leafState with
  | some state =>
    if mergeable left right then
      let (newNode, n) ← n.getFreeLeafState y
      let n := n.setNode newNode outerHigh (stateCode state)
      let n := n.freeStateBranch node
      let n := n.freeLeafState left.ptr
      let n := n.freeLeafState right.ptr
      return (.leaf newNode (setAddress outerHigh) state, n)
  | none => pure ()
  let (remaining, largest) ← n.check (summary address left right outerLow outerHigh)
  return (.branch node address left right remaining largest, n)

/-- TagRangeInternal on a leaf. A split recurses into one of the two new leaves,
which are leaves again; `splits` bounds these recursions. -/
def tagLeaf (y : Layout) : (splits : ℕ) → (node : ℕ) → (address : ℕ) → (current : RangeState) →
    (low high : ℕ) → (state : RangeState) → (outerLow outerHigh : ℕ) → Nodes →
    Except Halt (TreeNode × Nodes)
  | splits, node, address, current, low, high, state, outerLow, outerHigh, n => do
    n.check (checkBounds low high outerLow outerHigh)
    require (address ≥ low) ⟨.assertion .tagRangeInternal "Address out of bounds", n⟩
    require (address ≥ high) ⟨.assertion .tagRangeInternal "Address out of bounds", n⟩
    let targetState := if current ≠ .reserved then state else current
    if ¬ (low = outerLow ∧ high = address) then
      if low ≥ outerLow ∧ high ≤ address ∧ current = targetState then
        return (.leaf node address current, n)
      match splits with
      | 0 => throw ⟨.splitBound, n⟩
      | splits + 1 =>
        let midPoint := if low = outerLow then high else low
        let (newBranch, n) ← n.getFreeBranchState y
        let n := n.setNode newBranch midPoint branchCode
        require (outerLow < midPoint)
          ⟨.assertion .tagRangeInternal "About to create zero block", n⟩
        let (newLeft, n) ← n.getFreeLeafState y
        let n := n.setNode newLeft midPoint (stateCode current)
        require (midPoint = setAddress midPoint)
          ⟨.assertion .tagRangeInternal "Mismatch on expected block bounds", n⟩
        require (address = outerHigh ∨ outerHigh &&& pageMask = (2 ^ 64 - 1) &&& pageMask)
          ⟨.assertion .tagRangeInternal "Right block should touch the outer bound", n⟩
        let (newRight, n) ← n.getFreeLeafState y
        let n := n.setNode newRight address (stateCode current)
        let n := n.freeLeafState node
        let left := .leaf newLeft (setAddress midPoint) current
        let right := .leaf newRight (setAddress address) current
        let (left, right, n) ← (if low < midPoint ∧ high ≤ midPoint then do
            let (left, n) ← tagLeaf y splits newLeft (setAddress midPoint) current
              low high targetState outerLow midPoint n
            pure (left, right, n)
          else if low ≥ midPoint ∧ high > midPoint then do
            require (midPoint < address)
              ⟨.assertion .tagRangeInternal "About to create zero block", n⟩
            let (right, n) ← tagLeaf y splits newRight (setAddress address) current
              low high targetState midPoint address n
            pure (left, right, n)
          else
            throw ⟨.assertion .tagRangeInternal "Incorrect branch state", n⟩ :
          Except Halt (TreeNode × TreeNode × Nodes))
        require (¬ mergeable left right)
          ⟨.assertion .tagRangeInternal "About to perform unexpected state merge", n⟩
        let (newNode, n) ← updateNode y newBranch (setAddress midPoint) left right
          outerLow outerHigh n
        require (newNode.ptr = newBranch)
          ⟨.assertion .tagRangeInternal "Unexpected node merge", n⟩
        return (newNode, n)
    else
      require (low = outerLow ∨ high = outerHigh)
        ⟨.assertion .tagRangeInternal "Expected ranges to match.", n⟩
      return (.leaf node address targetState, n.setNode node address (stateCode targetState))

/-- TagRangeInternal. -/
def tagRangeInternal (y : Layout) (current : TreeNode) (low high : ℕ) (state : RangeState)
    (outerLow outerHigh : ℕ) (n : Nodes) : Except Halt (TreeNode × Nodes) :=
  match current with
  | .leaf node address currentState =>
    tagLeaf y 2 node address currentState low high state outerLow outerHigh n
  | .branch node address left right _ _ => do
    n.check (checkBounds low high outerLow outerHigh)
    require (outerLow ≤ address)
      ⟨.assertion .tagRangeInternal "Requested address is out of range", n⟩
    require (address < outerHigh)
      ⟨.assertion .tagRangeInternal "Requested address is out of range", n⟩
    let (left, right, n) ← (if low < address ∧ high ≤ address then do
        let (left, n) ← tagRangeInternal y left low high state outerLow address n
        pure (left, right, n)
      else if low ≥ address then do
        let (right, n) ← tagRangeInternal y right low high state address outerHigh n
        pure (left, right, n)
      else do
        let (left, n) ← tagRangeInternal y left low address state outerLow address n
        let (right, n) ← tagRangeInternal y right address high state address outerHigh n
        pure (left, right, n) :
      Except Halt (TreeNode × TreeNode × Nodes))
    updateNode y node address left right outerLow outerHigh n

/-- A MemoryState with its storage. -/
structure LinkedState where
  stateRoot : TreeNode
  nodes : Nodes
  highestAddress : ℕ

/-- The loops of Init, from the last entry of a table to the first. -/
@[irreducible] def linkEntries (start size : ℕ) : (count head : ℕ) → (ℕ → ℕ) → ℕ × (ℕ → ℕ)
  | 0, head, word => (head, word)
  | i + 1, head, word =>
    linkEntries start size i (start + size * i) (Function.update word (start + size * i) head)

namespace LinkedState

/-- The free lists that Init builds over any memory. -/
def initPools (y : Layout) (word : ℕ → ℕ) : Pools :=
  let leaves := linkEntries (y.initialEntries .leaf) Kind.leaf.size Kind.leaf.tableEntries 0 word
  let branches := linkEntries (y.initialEntries .branch) Kind.branch.size
    Kind.branch.tableEntries 0 leaves.2
  { word := branches.2
    freeHead := fun
      | .leaf => leaves.1
      | .branch => branches.1
    nextFreeHead := fun _ => 0
    pages := fun _ => 0
    inUse := [] }

/-- Init. The root takes the first entry of the branch free list. -/
def init (y : Layout) (word : ℕ → ℕ) (highestAddress : ℕ) : Except Halt LinkedState := do
  let (root, n) ← Nodes.getFreeBranchState y ⟨initPools y word, []⟩
  return {
    stateRoot := .leaf root (setAddress highestAddress) .free
    nodes := n.setNode root highestAddress (stateCode .free)
    highestAddress := highestAddress }

def initDynamic (y : Layout) (m : LinkedState) : LinkedState :=
  { m with nodes := { m.nodes with pools := m.nodes.pools.initDynamic y } }

def tagRange (y : Layout) (m : LinkedState) (low high : ℕ) (state : RangeState) :
    Except Halt LinkedState := do
  let (root, n) ← tagRangeInternal y m.stateRoot low high state 0 m.highestAddress m.nodes
  return { m with stateRoot := root, nodes := n }

end LinkedState

end Enkel.NodePools
