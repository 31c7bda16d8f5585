import Enkel.TableCount
import Enkel.Reachable

/-!
The loops of BuildPML4 over the memory map of the firmware. The first maps every
descriptor that is not free memory and tags its pages; the second walks from the
end of one descriptor to the start of the next, in whatever order they are listed,
and reserves what lies between. The log and the printing of the map are left out.
-/
namespace Enkel.Paging

open Outcome MemoryState KernelMemory

abbrev efiReservedMemoryType : ℕ := 0
abbrev efiLoaderCode : ℕ := 1
abbrev efiLoaderData : ℕ := 2
abbrev efiBootServicesCode : ℕ := 3
abbrev efiBootServicesData : ℕ := 4
abbrev efiRuntimeServicesCode : ℕ := 5
abbrev efiRuntimeServicesData : ℕ := 6
abbrev efiConventionalMemory : ℕ := 7
abbrev efiUnusableMemory : ℕ := 8
abbrev efiACPIReclaimMemory : ℕ := 9
abbrev efiACPIMemoryNVS : ℕ := 10
abbrev efiMemoryMappedIO : ℕ := 11

abbrev efiMemoryRuntime : ℕ := 2 ^ 63
abbrev efiMemoryRO : ℕ := 0x20000

abbrev flagStack : ℕ := 0x100000
abbrev flagTables : ℕ := 0x200000
abbrev flagBootstrap : ℕ := 0x400000
abbrev flagFramebuffer : ℕ := 0x800000
abbrev flagBinary : ℕ := 0x1000000

/-- EFI_MEMORY_DESCRIPTOR. -/
structure MemoryDescriptor where
  type : ℕ
  physicalStart : ℕ
  virtualStart : ℕ
  numberOfPages : ℕ
  attributes : ℕ
deriving DecidableEq, Repr

/-- The physical starts of the special locations. -/
structure SpecialLocations where
  binary : ℕ
  stack : ℕ
  framebuffer : ℕ
  bootstrap : ℕ
  tables : ℕ

namespace MemoryDescriptor
variable (d : MemoryDescriptor)

def size : ℕ := d.numberOfPages * pageSize % 2 ^ 64

def endAddress : ℕ := add64 d.physicalStart d.size

def isFree : Bool :=
  decide (d.type = efiConventionalMemory ∨ d.type = efiBootServicesCode ∨
    d.type = efiBootServicesData)

def isReserved : Bool :=
  decide (d.type = efiACPIMemoryNVS ∨ d.type = efiRuntimeServicesCode ∨
    d.type = efiRuntimeServicesData ∨ d.type = efiACPIReclaimMemory ∨
    d.type = efiUnusableMemory ∨ d.type = efiReservedMemoryType ∨ d.type = efiMemoryMappedIO ∨
    d.attributes &&& efiMemoryRuntime ≠ 0)

def isReadOnly : Bool :=
  decide (d.type = efiACPIReclaimMemory ∨ d.type = efiACPIMemoryNVS ∨
    d.type = efiUnusableMemory ∨ d.attributes &&& efiMemoryRO ≠ 0)

def isExecutable : Bool :=
  decide (d.type = efiRuntimeServicesCode ∨ d.type = efiLoaderCode)

/-- The attributes record which special location the descriptor starts with. -/
def mark (l : SpecialLocations) : MemoryDescriptor :=
  if d.physicalStart = l.stack then { d with attributes := d.attributes ||| flagStack }
  else if d.physicalStart = l.tables then { d with attributes := d.attributes ||| flagTables }
  else if d.physicalStart = l.bootstrap then
    { d with attributes := d.attributes ||| flagBootstrap }
  else if d.physicalStart = l.binary &&& pageMask then
    { d with attributes := d.attributes ||| flagBinary }
  else if d.physicalStart ≤ l.framebuffer &&& pageMask ∧
      l.framebuffer &&& pageMask ≤ d.endAddress then
    { d with attributes := d.attributes ||| flagFramebuffer }
  else d

/-- A virtual start of zero stands for the identity. -/
def mappedAt : ℕ := if d.virtualStart = 0 then d.physicalStart else d.virtualStart

def mapping : Mapping :=
  { writable := !d.isReadOnly
    executable := d.isExecutable
    privilegeLevel := .user
    newState := if d.isReserved then .reserved else .used
    pageFlags := pageFlagsNone }

end MemoryDescriptor

/-- The highest end of a descriptor. -/
def highestEnd (ds : List MemoryDescriptor) : ℕ :=
  ds.foldl (fun highest d => if highest < d.endAddress then d.endAddress else highest) 0

/-- One turn of the descriptor loop. -/
def mapDescriptor (depth : ℕ) (l : SpecialLocations) (k : KernelMemory) (d : MemoryDescriptor) :
    Except Fault KernelMemory :=
  let d := d.mark l
  if d.isFree then return k
  else k.mapPages depth d.mappedAt d.physicalStart d.size d.mapping

def descriptorLoop (depth : ℕ) (l : SpecialLocations) (ds : List MemoryDescriptor)
    (k : KernelMemory) : Except Fault KernelMemory :=
  ds.foldlM (mapDescriptor depth l) k

inductive BuildFault
  | memory (e : Fault)
  | assertion (message : String)
deriving DecidableEq, Repr

/-- The lowest start behind an address, or the largest word. -/
def lowestStart (ds : List MemoryDescriptor) (startP : ℕ) : ℕ :=
  ds.foldl (fun lowest d =>
    if startP < d.physicalStart ∧ d.physicalStart < lowest then d.physicalStart else lowest)
    (2 ^ 64 - 1)

/-- The loop that looks for gaps, for a number of turns; `none` if it has not ended. -/
def gapLoop (ds : List MemoryDescriptor) (highest : ℕ) :
    (fuel startP : ℕ) → MemoryState → Option (Except BuildFault MemoryState)
  | 0, startP, m => if startP = highest then some (.ok m) else none
  | fuel + 1, startP, m =>
    if startP = highest then some (.ok m) else
    match ds.find? fun d => startP = d.physicalStart with
    | some d => gapLoop ds highest fuel d.endAddress m
    | none =>
      let lowest := lowestStart ds startP
      if lowest = 2 ^ 64 - 1 then
        some (.error (.assertion "Unexpected memory map mismatch"))
      else
        match m.tagRange startP lowest .reserved with
        | .error e => some (.error (.memory e))
        | .ok m => gapLoop ds highest fuel lowest m

/-- What BuildPML4 starts from, beside the memory map. -/
structure KernelStart where
  special : SpecialLocations
  pml4 : ℕ
  initialPageTableEntries : ℕ
  memory : ℕ → ℕ → ℕ
  cr3 : ℕ
  heapRequests : List (List ℕ)
  pml4_aligned : Aligned pml4
  pml4_lt : pml4 < 2 ^ 48
  initial_aligned : Aligned initialPageTableEntries
  initial_le : initialPageTableEntries + pageSize * staticPageEntries ≤ 2 ^ 48
  separate : pml4 < initialPageTableEntries ∨
    initialPageTableEntries + pageSize * staticPageEntries ≤ pml4
  heap_lt : ∀ sizes ∈ heapRequests, ∀ size ∈ sizes, size < 2 ^ 64

/-- Both trees are initialised, the PML4 is cleared and the static pages are free. -/
def KernelStart.prepare (start : KernelStart) (highestAddress : ℕ) : KernelMemory :=
  { physicalMemoryState := MemoryState.init highestAddress
    virtualMemoryState := MemoryState.init pageMask
    entries := fun table index => if table = start.pml4 then 0 else start.memory table index
    pml4 := start.pml4
    initialPageTableEntries := start.initialPageTableEntries
    pagingFree := blockPages start.initialPageTableEntries staticPageEntries
    nextFreePageTableEntriesBlock := 0
    pml4Set := false
    cr3 := start.cr3
    linkedBlocks := []
    blocks := []
    heapRequests := start.heapRequests }

/-- BuildPML4 up to the end of the gap loop. -/
def buildPML4 (start : KernelStart) (ds : List MemoryDescriptor) (depth fuel : ℕ) :
    Option (Except BuildFault KernelMemory) :=
  let highestUntrimmed := highestEnd ds
  match descriptorLoop depth start.special ds (start.prepare (highestUntrimmed &&& pageMask)) with
  | .error e => some (.error (.memory e))
  | .ok k =>
    (gapLoop ds highestUntrimmed fuel 0 k.physicalMemoryState).map fun r =>
      r.map fun m => { k with physicalMemoryState := m }

end Enkel.Paging
