import Enkel.Types

/-!
The page-state tree of state.h and state.cpp. A leaf records the state of the
range up to its address; a branch divides its range at its address and caches
the number of free bytes below it and the size of the largest free leaf. Nodes
keep the storage entry they occupy, and the two free lists are lists of such
entries. The tag `Branch` of the source is the constructor `branch`, so a leaf
cannot carry it.
-/
namespace Enkel.MemoryState

open Outcome

inductive RangeState
  | free
  | reserved
  | used
deriving DecidableEq, Repr

/-- A storage entry: InitialLeafEntries or InitialBranchEntries, and an index. -/
inductive NodePtr
  | leafEntry (index : ℕ)
  | branchEntry (index : ℕ)
deriving DecidableEq, Repr

inductive StateNode
  | leaf (node : NodePtr) (address : ℕ) (state : RangeState)
  | branch (node : NodePtr) (address : ℕ) (left right : StateNode) (remaining largest : ℕ)
deriving DecidableEq, Repr

def StateNode.ptr : StateNode → NodePtr
  | .leaf node _ _ => node
  | .branch node _ _ _ _ _ => node

/-- The state of a leaf; `none` stands for the tag `Branch`. -/
def StateNode.leafState : StateNode → Option RangeState
  | .leaf _ _ state => some state
  | .branch _ _ _ _ _ _ => none

/-- SetAddress stores the address bits and clears the state bits. -/
def setAddress (address : ℕ) : ℕ := address &&& pageMask

structure FreeLists where
  leaves : List NodePtr
  branches : List NodePtr
deriving DecidableEq, Repr

namespace FreeLists

def getFreeBranchState (lists : FreeLists) : Except Fault (NodePtr × FreeLists) :=
  match lists.branches with
  | [] => .error .branchListEmpty
  | node :: rest => .ok (node, { lists with branches := rest })

def freeStateBranch (lists : FreeLists) (node : NodePtr) : FreeLists :=
  { lists with branches := node :: lists.branches }

def getFreeLeafState (lists : FreeLists) : Except Fault (NodePtr × FreeLists) :=
  match lists.leaves with
  | [] => .error .leafListEmpty
  | node :: rest => .ok (node, { lists with leaves := rest })

def freeLeafState (lists : FreeLists) (node : NodePtr) : FreeLists :=
  { lists with leaves := node :: lists.leaves }

end FreeLists

def getRemaining (node : StateNode) (outerLow outerHigh : ℕ) : Except Fault ℕ :=
  match node with
  | .branch _ _ _ _ remaining _ => .ok remaining
  | .leaf _ _ .free => do
    require (sub64 outerHigh outerLow > 0) (.assertion .getRemaining "Found empty node")
    return sub64 outerHigh outerLow
  | .leaf _ _ _ => .ok 0

def getLargestFree (node : StateNode) (outerLow outerHigh : ℕ) : Except Fault ℕ :=
  match node with
  | .branch _ _ _ _ _ largest => .ok largest
  | .leaf _ _ .free => do
    require (sub64 outerHigh outerLow > 0) (.assertion .getLargestFree "Found empty node")
    return sub64 outerHigh outerLow
  | .leaf _ _ _ => .ok 0

/-- The test of UpdateNode: the right child is a leaf and the left child has its state. -/
def mergeable (left right : StateNode) : Prop :=
  right.leafState ≠ none ∧ left.leafState = right.leafState

instance (left right : StateNode) : Decidable (mergeable left right) :=
  inferInstanceAs (Decidable (_ ∧ _))

/-- UpdateNode for the branch at `node` with the given address and children. -/
def updateNode (node : NodePtr) (address : ℕ) (left right : StateNode)
    (outerLow outerHigh : ℕ) (lists : FreeLists) : Except Fault (StateNode × FreeLists) := do
  match left.leafState with
  | some state =>
    if mergeable left right then
      let (newNode, lists) ← lists.getFreeLeafState
      let lists := lists.freeStateBranch node
      let lists := lists.freeLeafState left.ptr
      let lists := lists.freeLeafState right.ptr
      return (.leaf newNode (setAddress outerHigh) state, lists)
  | none => pure ()
  let largestLeft ← getLargestFree left outerLow address
  let largestRight ← getLargestFree right address outerHigh
  require (sub64 outerHigh outerLow > 0) (.assertion .updateNode "Encountered empty block")
  let remainingLeft ← getRemaining left outerLow address
  let remainingRight ← getRemaining right address outerHigh
  let largest := if largestLeft > largestRight then largestLeft else largestRight
  return (.branch node address left right (add64 remainingLeft remainingRight) largest, lists)

/-- The assertions at the head of TagRangeInternal. -/
def checkBounds (low high outerLow outerHigh : ℕ) : Except Fault Unit := do
  require (sub64 outerHigh outerLow > 0)
    (.assertion .tagRangeInternal "About to create an empty block")
  require (outerLow ≤ low) (.assertion .tagRangeInternal "Requested address is out of range")
  require (high ≤ outerHigh) (.assertion .tagRangeInternal "Requested address is out of range")

/-- TagRangeInternal on a leaf. A split recurses into one of the two new leaves,
which are leaves again; `splits` bounds these recursions. An assertion that the
source repeats with the same operands is stated once. -/
def tagLeaf : (splits : ℕ) → (node : NodePtr) → (address : ℕ) → (current : RangeState) →
    (low high : ℕ) → (state : RangeState) → (outerLow outerHigh : ℕ) → FreeLists →
    Except Fault (StateNode × FreeLists)
  | splits, node, address, current, low, high, state, outerLow, outerHigh, lists => do
    checkBounds low high outerLow outerHigh
    require (address ≥ low) (.assertion .tagRangeInternal "Address out of bounds")
    require (address ≥ high) (.assertion .tagRangeInternal "Address out of bounds")
    let targetState := if current ≠ .reserved then state else current
    if ¬ (low = outerLow ∧ high = address) then
      if low ≥ outerLow ∧ high ≤ address ∧ current = targetState then
        return (.leaf node address current, lists)
      match splits with
      | 0 => throw .splitBound
      | splits + 1 =>
        let midPoint := if low = outerLow then high else low
        let (newBranch, lists) ← lists.getFreeBranchState
        require (outerLow < midPoint) (.assertion .tagRangeInternal "About to create zero block")
        let (newLeft, lists) ← lists.getFreeLeafState
        require (midPoint = setAddress midPoint)
          (.assertion .tagRangeInternal "Mismatch on expected block bounds")
        require (address = outerHigh ∨ outerHigh &&& pageMask = (2 ^ 64 - 1) &&& pageMask)
          (.assertion .tagRangeInternal "Right block should touch the outer bound")
        let (newRight, lists) ← lists.getFreeLeafState
        let lists := lists.freeLeafState node
        let left := .leaf newLeft (setAddress midPoint) current
        let right := .leaf newRight (setAddress address) current
        let (left, right, lists) ← (if low < midPoint ∧ high ≤ midPoint then do
            let (left, lists) ← tagLeaf splits newLeft (setAddress midPoint) current
              low high targetState outerLow midPoint lists
            pure (left, right, lists)
          else if low ≥ midPoint ∧ high > midPoint then do
            require (midPoint < address) (.assertion .tagRangeInternal "About to create zero block")
            let (right, lists) ← tagLeaf splits newRight (setAddress address) current
              low high targetState midPoint address lists
            pure (left, right, lists)
          else
            throw (.assertion .tagRangeInternal "Incorrect branch state") :
          Except Fault (StateNode × StateNode × FreeLists))
        require (¬ mergeable left right)
          (.assertion .tagRangeInternal "About to perform unexpected state merge")
        let (newNode, lists) ←
          updateNode newBranch (setAddress midPoint) left right outerLow outerHigh lists
        require (newNode.ptr = newBranch) (.assertion .tagRangeInternal "Unexpected node merge")
        return (newNode, lists)
    else
      require (low = outerLow ∨ high = outerHigh)
        (.assertion .tagRangeInternal "Expected ranges to match.")
      return (.leaf node address targetState, lists)

/-- TagRangeInternal. After the recursion the current node still is a branch,
since only its descendants have been given back. -/
def tagRangeInternal (current : StateNode) (low high : ℕ) (state : RangeState)
    (outerLow outerHigh : ℕ) (lists : FreeLists) : Except Fault (StateNode × FreeLists) :=
  match current with
  | .leaf node address currentState =>
    tagLeaf 2 node address currentState low high state outerLow outerHigh lists
  | .branch node address left right _ _ => do
    checkBounds low high outerLow outerHigh
    require (outerLow ≤ address) (.assertion .tagRangeInternal "Requested address is out of range")
    require (address < outerHigh) (.assertion .tagRangeInternal "Requested address is out of range")
    let (left, right, lists) ← (if low < address ∧ high ≤ address then do
        let (left, lists) ← tagRangeInternal left low high state outerLow address lists
        pure (left, right, lists)
      else if low ≥ address then do
        let (right, lists) ← tagRangeInternal right low high state address outerHigh lists
        pure (left, right, lists)
      else do
        let (left, lists) ← tagRangeInternal left low address state outerLow address lists
        let (right, lists) ← tagRangeInternal right address high state address outerHigh lists
        pure (left, right, lists) :
      Except Fault (StateNode × StateNode × FreeLists))
    updateNode node address left right outerLow outerHigh lists

def findMinimumSizeFreeBlockInternal (current : StateNode) (minSize outerLow outerHigh : ℕ) :
    Except Fault ℕ :=
  match current with
  | .branch _ mid left right _ _ => do
    let largestLeft ← getLargestFree left outerLow mid
    let largestRight ← getLargestFree right mid outerHigh
    let candidate ← (if largestLeft ≥ minSize then
        findMinimumSizeFreeBlockInternal left minSize outerLow mid
      else pure 0 : Except Fault ℕ)
    if candidate ≠ 0 then
      return candidate
    if largestRight ≥ minSize then
      findMinimumSizeFreeBlockInternal right minSize mid outerHigh
    else
      return 0
  | .leaf node address .free => do
    let largest ← getLargestFree (.leaf node address .free) outerLow address
    if largest ≥ minSize then
      return outerLow
    else
      return 0
  | .leaf _ _ _ => .ok 0

def getPageStateInternal (current : StateNode) (address : ℕ) : RangeState :=
  match current with
  | .branch _ mid left right _ _ =>
    if address < mid then getPageStateInternal left address else getPageStateInternal right address
  | .leaf _ _ state => state

end MemoryState

open MemoryState

structure MemoryState where
  stateRoot : StateNode
  lists : FreeLists
  highestAddress : ℕ
deriving DecidableEq, Repr

namespace MemoryState

def initialLeafTableEntries : ℕ := 4096

def initialBranchTableEntries : ℕ := 4096

/-- Init. The root takes the first entry of the branch free list. -/
def init (highestAddress : ℕ) : MemoryState :=
  { stateRoot := .leaf (.branchEntry 0) (setAddress highestAddress) .free
    lists :=
      { leaves := (List.range initialLeafTableEntries).map .leafEntry
        branches := ((List.range initialBranchTableEntries).map .branchEntry).tail }
    highestAddress := highestAddress }

def tagRange (m : MemoryState) (low high : ℕ) (state : RangeState) : Except Fault MemoryState := do
  let (root, lists) ← tagRangeInternal m.stateRoot low high state 0 m.highestAddress m.lists
  return { m with stateRoot := root, lists := lists }

def findMinimumSizeFreeBlock (m : MemoryState) (minSize : ℕ) : Except Fault ℕ :=
  findMinimumSizeFreeBlockInternal m.stateRoot minSize 0 m.highestAddress

def getPageState (m : MemoryState) (address : ℕ) : RangeState :=
  getPageStateInternal m.stateRoot address

end MemoryState

end Enkel
