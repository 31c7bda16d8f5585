import Enkel.MemoryState

/-!
The page tables of pml4.cpp and the allocators of virtual.cpp and physical.cpp.
The contents of the paging structure pages are read and written through their
addresses, as the kernel does. A refill of the paging free list re-enters the
allocator, so the functions that may need a page take the page source as an
argument, and `getPML4FreePage depth` allows `depth` nested refills.
-/
namespace Enkel.Paging

open Outcome MemoryState

inductive PrivilegeLevel
  | kernel
  | user
  | keep
deriving DecidableEq, Repr

/-- PageFlags is an unscoped enumeration whose values are also combined by bitwise or. -/
abbrev PageFlags := ℕ

def pageFlagsNone : PageFlags := 0
def pageFlagsCacheWriteThrough : PageFlags := 1
def pageFlagsCacheDisable : PageFlags := 2

inductive MemoryProtection
  | readOnly
  | readWrite
  | execute
deriving DecidableEq, Repr

def present : ℕ := 1
def writableBit : ℕ := 2
def userCpl : ℕ := 4
def writeThrough : ℕ := 8
def cacheDisable : ℕ := 16
def page2MB : ℕ := 128
def notExecutable : ℕ := 2 ^ 63

/-- The kernel is compiled with ENABLE_NX=0. -/
def enableNX : Bool := false

def pml4AddressMask : ℕ := 2 ^ 52 - 2 ^ 12
def pmReservedMask : ℕ := 0xF000000000000
def pml4ReservedMask : ℕ := 0xF000000000000 ||| 0x80

def staticPageEntries : ℕ := 2048
def nextPagingBlockSize : ℕ := 0x1000

/-- Bytes of one block of paging structure pages. -/
abbrev pagingBlockBytes : ℕ := 0x1000000

/-- The memory management state. `linkedBlocks` and `blocks` are history: the
blocks put on the free list, and every block obtained with its frame. The sizes
that rpmalloc asks for during the InitDynamic calls of each refill are an
arbitrary sequence, `heapRequests`. -/
structure KernelMemory where
  physicalMemoryState : MemoryState
  virtualMemoryState : MemoryState
  entries : ℕ → ℕ → ℕ
  pml4 : ℕ
  initialPageTableEntries : ℕ
  pagingFree : List ℕ
  nextFreePageTableEntriesBlock : ℕ
  pml4Set : Bool
  cr3 : ℕ
  linkedBlocks : List ℕ
  blocks : List (ℕ × ℕ)
  heapRequests : List (List ℕ)

def pml4Index (virtualAddress : ℕ) : ℕ := (virtualAddress >>> 39) &&& 0x1FF
def pdptIndex (virtualAddress : ℕ) : ℕ := (virtualAddress >>> 30) &&& 0x1FF
def pdIndex (virtualAddress : ℕ) : ℕ := (virtualAddress >>> 21) &&& 0x1FF
def ptIndex (virtualAddress : ℕ) : ℕ := (virtualAddress >>> 12) &&& 0x1FF

/-- The arguments of MapPages that do not change from page to page. -/
structure Mapping where
  writable : Bool
  executable : Bool
  privilegeLevel : PrivilegeLevel
  newState : RangeState
  pageFlags : PageFlags
deriving DecidableEq, Repr

/-- The new leaf entry for a page, from its old one. -/
def Mapping.leafEntry (m : Mapping) (old physicalAddress : ℕ) : ℕ :=
  if m.newState = .free then
    physicalAddress &&& pageMask
  else
    let wasPresent := old &&& present ≠ 0
    let userModeFlag :=
      if m.privilegeLevel = .user ∨
          (wasPresent ∧ m.privilegeLevel = .keep ∧ old &&& userCpl = userCpl)
      then userCpl else 0
    let entry := (physicalAddress &&& pageMask) ||| present ||| userModeFlag
    let entry := if m.writable then entry ||| writableBit else entry
    let entry := if !m.executable && enableNX then entry ||| notExecutable else entry
    let entry := if m.pageFlags = pageFlagsCacheDisable then entry ||| cacheDisable else entry
    if m.pageFlags = pageFlagsCacheWriteThrough then entry ||| writeThrough else entry

namespace KernelMemory

def setEntry (k : KernelMemory) (table index entry : ℕ) : KernelMemory :=
  { k with
    entries := Function.update k.entries table (Function.update (k.entries table) index entry) }

/-- Set every entry of the pages that satisfy `c` to zero. -/
def clearPages (k : KernelMemory) (c : ℕ → Bool) : KernelMemory :=
  { k with entries := fun table index => if c table then 0 else k.entries table index }

/-- The addresses of the pages of the block at `block`. Irreducible, so that
unification does not enumerate them. -/
@[irreducible] def blockPages (block count : ℕ) : List ℕ :=
  (List.range count).map fun i => block + pageSize * i

def inBlock (block address : ℕ) : Bool :=
  decide (block ≤ address) && decide (address < block + pagingBlockBytes)

/-- Pages that hold a paging structure, or are set aside to hold one. -/
def isPagingPage (k : KernelMemory) (address : ℕ) : Bool :=
  decide (address = k.pml4) ||
    (decide (k.initialPageTableEntries ≤ address) &&
      decide (address < k.initialPageTableEntries + pageSize * staticPageEntries)) ||
    k.blocks.any fun b => inBlock b.1 address

def getPhysicalAddress (k : KernelMemory) (virtualAddress : ℕ) (live : Bool) : ℕ :=
  let activeMap := if live then k.cr3 &&& pml4AddressMask else k.pml4
  let pml4Entry := k.entries activeMap (pml4Index virtualAddress)
  if pml4Entry &&& present = 0 then invalidAddress else
  let pdpt := pml4Entry &&& pml4AddressMask
  let pdptEntry := k.entries pdpt (pdptIndex virtualAddress)
  if pdptEntry &&& present = 0 then invalidAddress else
  let pd := pdptEntry &&& pml4AddressMask
  let pdEntry := k.entries pd (pdIndex virtualAddress)
  if pdEntry &&& present = 0 then invalidAddress else
  if pdEntry &&& page2MB ≠ 0 then
    (pdEntry &&& pml4AddressMask) + (virtualAddress &&& 0x1FFFFF)
  else
  let pt := pdEntry &&& pml4AddressMask
  let ptEntry := k.entries pt (ptIndex virtualAddress)
  if ptEntry &&& present = 0 then invalidAddress else
  (ptEntry &&& pml4AddressMask) + (virtualAddress &&& 0xFFF)

/-- Once the tables are live, a page that holds a paging structure has to keep
its frame: otherwise the kernel reads another frame through its address, and
the model stops. -/
def keepsPagingPage (k : KernelMemory) (m : Mapping) (virtualAddress physicalAddress : ℕ) : Prop :=
  k.pml4Set = true → k.isPagingPage virtualAddress = true →
    m.newState ≠ .free ∧ k.getPhysicalAddress virtualAddress false = physicalAddress

instance (k : KernelMemory) (m : Mapping) (virtualAddress physicalAddress : ℕ) :
    Decidable (k.keepsPagingPage m virtualAddress physicalAddress) :=
  inferInstanceAs (Decidable (_ → _ → _))

/-- The pages of the blocks on the free list, and the tables taken from them,
can be read and written through their addresses. -/
def linkedMapped (k : KernelMemory) : Prop :=
  ∀ block ∈ k.linkedBlocks, ∀ page ∈ blockPages block nextPagingBlockSize,
    k.getPhysicalAddress page false ≠ invalidAddress

instance (k : KernelMemory) : Decidable k.linkedMapped :=
  inferInstanceAs (Decidable (∀ block ∈ k.linkedBlocks, ∀ page ∈ _, _ ≠ _))

/-- The end of GetPML4FreePage: take the head of the list and clear it. -/
def takePage (k : KernelMemory) : Except Fault (ℕ × KernelMemory) :=
  match k.pagingFree with
  | [] => .error .pagingListEmpty
  | page :: rest => .ok (page, { k with pagingFree := rest }.clearPages fun t => decide (t = page))

end KernelMemory

open KernelMemory

/-- A source of paging structure pages. -/
abbrev PageSource := KernelMemory → Except Fault (ℕ × KernelMemory)

/-- An entry of a PML4, PDPT or PD that points to `page`. -/
def tableEntry (page : ℕ) : ℕ := page ||| present ||| writableBit ||| userCpl

/-- The step that MapPages repeats for the PML4, the PDPT and the PD: follow the
entry when it is present, else point it to a new page. A refill inside `getPage`
may have filled the entry; when what it led to mapped pages of paging
structures, the model stops. -/
def nextTable (getPage : PageSource) (table index reservedMask : ℕ) (k : KernelMemory) :
    Except Fault (ℕ × KernelMemory) :=
  if k.entries table index &&& present ≠ 0 then
    .ok (k.entries table index &&& pml4AddressMask, k)
  else do
    let (page, k) ← getPage k
    let k := k.setEntry table index (tableEntry page)
    require (k.entries table index &&& reservedMask = 0) (.assertion .mapPages "Reserved bits set")
    require k.linkedMapped .pagingPageRemapped
    return (page, k)

/-- The end of a turn of the loop of MapPages: write the leaf entry and, unless
the page is being freed, check what was written. -/
def writeLeaf (m : Mapping)
    (virtualAddress physicalAddress originalVirtualAddress originalPhysicalAddress pt : ℕ)
    (k : KernelMemory) : Except Fault KernelMemory := do
  require (k.keepsPagingPage m virtualAddress physicalAddress) .pagingPageRemapped
  let k := k.setEntry pt (ptIndex virtualAddress)
    (m.leafEntry (k.entries pt (ptIndex virtualAddress)) physicalAddress)
  if m.newState = .free then
    return k
  require (k.entries pt (ptIndex virtualAddress) &&& pmReservedMask = 0)
    (.assertion .mapPages "Reserved bits set")
  require (physicalAddress = k.getPhysicalAddress virtualAddress false)
    (.assertion .mapPages "Physical address mismatch.")
  require (originalVirtualAddress = virtualAddress)
    (.assertion .mapPages "Virtual address mismatch.")
  require (originalPhysicalAddress = physicalAddress)
    (.assertion .mapPages "Physical address mismatch.")
  return k

/-- One turn of the loop of MapPages. -/
def mapPage (getPage : PageSource) (m : Mapping)
    (virtualAddress physicalAddress originalVirtualAddress originalPhysicalAddress : ℕ)
    (k : KernelMemory) : Except Fault KernelMemory := do
  let (pdpt, k) ← nextTable getPage k.pml4 (pml4Index virtualAddress) pml4ReservedMask k
  let (pd, k) ← nextTable getPage pdpt (pdptIndex virtualAddress) pmReservedMask k
  let (pt, k) ← nextTable getPage pd (pdIndex virtualAddress) pmReservedMask k
  writeLeaf m virtualAddress physicalAddress originalVirtualAddress originalPhysicalAddress pt k

/-- The loop of MapPages, by the number of its turns. -/
def mapLoop (getPage : PageSource) (m : Mapping) : (turns : ℕ) →
    (virtualAddress physicalAddress originalVirtualAddress originalPhysicalAddress : ℕ) →
    KernelMemory → Except Fault KernelMemory
  | 0, _, _, _, _, k => .ok k
  | turns + 1, v, p, ov, op, k => do
    let k ← mapPage getPage m v p ov op k
    if m.newState = .free then
      mapLoop getPage m turns (v + pageSize) (p + pageSize) ov op k
    else
      mapLoop getPage m turns (v + pageSize) (p + pageSize) (ov + pageSize) (op + pageSize) k

/-- How often `while (virtualAddress < endVirtualAddress)` turns, a page each time. -/
def loopTurns (virtualAddress endVirtualAddress : ℕ) : ℕ :=
  (endVirtualAddress - virtualAddress + (pageSize - 1)) / pageSize

def mapPagesWith (getPage : PageSource) (virtualAddress physicalAddress size : ℕ) (m : Mapping)
    (k : KernelMemory) : Except Fault KernelMemory := do
  require (size &&& (pageSize - 1) = 0) (.assertion .mapPages "Misaligned page size")
  let endVirtualAddress := add64 virtualAddress size
  let v := virtualAddress &&& pageMask
  let p := physicalAddress &&& pageMask
  require (virtualAddress = v) (.assertion .mapPages "Virtual address mismatch.")
  require (physicalAddress = p) (.assertion .mapPages "Physical address mismatch.")
  let pageAlignedSize := add64 size (pageSize - 1) &&& pageMask
  let physicalAddressEnd := add64 p pageAlignedSize
  let turns := loopTurns v endVirtualAddress
  require (∀ i < turns, k.keepsPagingPage m (v + pageSize * i) (p + pageSize * i))
    .pagingPageRemapped
  let physical ← k.physicalMemoryState.tagRange p physicalAddressEnd m.newState
  let virt ← k.virtualMemoryState.tagRange v endVirtualAddress m.newState
  mapLoop getPage m turns v p virtualAddress physicalAddress
    { k with physicalMemoryState := physical, virtualMemoryState := virt }

/-- The arguments with which the allocators call MapPages. -/
def allocMapping (privilegeLevel : PrivilegeLevel) (pageFlags : PageFlags) : Mapping :=
  { writable := true, executable := false, privilegeLevel := privilegeLevel, newState := .used,
    pageFlags := pageFlags }

/-- VirtualAlloc. The write to the new block and the check that follows it
cannot fail, since its first page has just been mapped writable. -/
def virtualAllocWith (getPage : PageSource) (byteSize : ℕ) (privilegeLevel : PrivilegeLevel)
    (pageFlags : PageFlags) (k : KernelMemory) : Except Fault (ℕ × KernelMemory) := do
  let physicalAddress ← k.physicalMemoryState.findMinimumSizeFreeBlock byteSize
  if physicalAddress = 0 then
    require (physicalAddress = 0) (.assertion .virtualAlloc "Failed to allocate")
    return (0, k)
  let virtualAddress ← k.virtualMemoryState.findMinimumSizeFreeBlock byteSize
  let k ← mapPagesWith getPage virtualAddress physicalAddress byteSize
    (allocMapping privilegeLevel pageFlags) k
  return (virtualAddress, k)

/-- One request of rpmalloc for memory, served by RPMallocMap. -/
def rpMallocMap (getPage : PageSource) (k : KernelMemory) (size : ℕ) :
    Except Fault KernelMemory := do
  let (ptr, k) ← virtualAllocWith getPage size .kernel pageFlagsNone k
  require (ptr ≠ 0) (.assertion .rpMallocMap "Failed to map virtual memory block")
  return k

/-- The InitDynamic calls of both trees: their node pages come from rpmalloc,
which asks for memory when its own blocks are used up. -/
def initDynamic (getPage : PageSource) (k : KernelMemory) : Except Fault KernelMemory :=
  match k.heapRequests with
  | [] => .ok k
  | sizes :: rest => sizes.foldlM (rpMallocMap getPage) { k with heapRequests := rest }

def allocateNextFreePageTableEntries (getPage : PageSource) (k : KernelMemory) :
    Except Fault KernelMemory := do
  let (block, k) ← virtualAllocWith getPage pagingBlockBytes .kernel pageFlagsNone k
  require (block ≠ 0) (.nullPointer .allocateNextFreePageTableEntries)
  let k := { k with
    nextFreePageTableEntriesBlock := block
    blocks := (block, k.getPhysicalAddress block false) :: k.blocks }
  initDynamic getPage (k.clearPages (inBlock block))

/-- The start of GetPML4FreePage when the list is empty: link the pages of the
reserve block, which writes to each of them. -/
def linkReserve (k : KernelMemory) : Except Fault KernelMemory := do
  let block := k.nextFreePageTableEntriesBlock
  require (block ≠ 0) (.nullPointer .getPML4FreePage)
  require (block ∉ k.linkedBlocks) .blockLinkedTwice
  require (∀ page ∈ blockPages block nextPagingBlockSize,
    k.getPhysicalAddress page false ≠ invalidAddress) (.pageFault .getPML4FreePage)
  return { k with
    pagingFree := blockPages block nextPagingBlockSize
    linkedBlocks := block :: k.linkedBlocks }

def getPML4FreePage : (depth : ℕ) → PageSource
  | 0, k => k.takePage
  | depth + 1, k => do
    let k ← (if k.pagingFree = [] then do
        let k ← linkReserve k
        allocateNextFreePageTableEntries (getPML4FreePage depth) k
      else pure k : Except Fault KernelMemory)
    k.takePage

namespace KernelMemory

section Entry
variable (depth : ℕ)

def mapPages (virtualAddress physicalAddress size : ℕ) (m : Mapping) (k : KernelMemory) :
    Except Fault KernelMemory :=
  mapPagesWith (getPML4FreePage depth) virtualAddress physicalAddress size m k

def virtualAlloc (byteSize : ℕ) (privilegeLevel : PrivilegeLevel) (pageFlags : PageFlags)
    (k : KernelMemory) : Except Fault (ℕ × KernelMemory) :=
  virtualAllocWith (getPML4FreePage depth) byteSize privilegeLevel pageFlags k

def virtualFree (address byteSize : ℕ) (k : KernelMemory) : Except Fault KernelMemory :=
  mapPages depth address (k.getPhysicalAddress address true) byteSize
    { writable := false, executable := false, privilegeLevel := .kernel, newState := .free,
      pageFlags := pageFlagsNone } k

def virtualProtect (address byteSize : ℕ) (protectFlags : MemoryProtection)
    (pageFlags : PageFlags) (privilegeLevel : PrivilegeLevel) (k : KernelMemory) :
    Except Fault KernelMemory :=
  mapPages depth address (k.getPhysicalAddress address true) byteSize
    { writable := decide (protectFlags = .readWrite), executable := decide (protectFlags = .execute),
      privilegeLevel := privilegeLevel, newState := .used, pageFlags := pageFlags } k

def physicalAlloc (physicalAddress byteSize : ℕ) (privilegeLevel : PrivilegeLevel)
    (pageFlags : PageFlags) (k : KernelMemory) : Except Fault (ℕ × KernelMemory) := do
  let virtualAddress ← k.virtualMemoryState.findMinimumSizeFreeBlock byteSize
  let k ← mapPages depth virtualAddress physicalAddress byteSize
    (allocMapping privilegeLevel pageFlags) k
  return (virtualAddress, k)

def physicalAllocLowestAddress (byteSize : ℕ) (privilegeLevel : PrivilegeLevel)
    (pageFlags : PageFlags) (k : KernelMemory) : Except Fault (ℕ × KernelMemory) := do
  let physicalAddress ← k.physicalMemoryState.findMinimumSizeFreeBlock byteSize
  let virtualAddress ← k.virtualMemoryState.findMinimumSizeFreeBlock byteSize
  let k ← mapPages depth virtualAddress physicalAddress byteSize
    (allocMapping privilegeLevel pageFlags) k
  return (virtualAddress, k)

end Entry

end KernelMemory

end Enkel.Paging
