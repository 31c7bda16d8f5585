import Enkel.BinaryRegistry
import Enkel.PathCalls
import Enkel.ThreadLocal

/-!
RunProgram with what it takes and gives back: pages, entries of FileHandles and binaries.
Every block from VirtualAlloc is written at once, so the null pointer that stands for no
memory stops the program. What a program writes is left out, and it makes no system calls
but sys_brk, which moves inside the block of its binary. rpmalloc keeps what it has mapped.
-/
namespace Enkel.ProgramRun

open Outcome Paging
open BinaryRegistry (Name slots)
open VolumeCalls (System Devices)
open ThreadLocal (TlsAllocation tlsSizes)

/-- What LoadElfFromMemory finds in the contents of a file: an assertion that fails, the
size of the block, the names in the .interp sections, and the thread-local sizes. -/
structure Image where
  failure : Option String
  allocatedSize : ℕ
  interp : List Name
  tlsDataSize : ℕ
  tbssSize : ℕ
  tlsAlign : ℕ
  allocatedSize_lt : allocatedSize < 2 ^ 64

structure ElfBinary where
  name : Name
  baseAddress : ℕ
  allocatedSize : ℕ
  refCount : ℕ
  interpreterName : Name
  interpreterFileHandle : ℕ
  tlsDataSize : ℕ
  tbssSize : ℕ
  tlsAlign : ℕ
deriving DecidableEq, Repr

/-- A binary after memset and strcpy. -/
def ElfBinary.blank (programName : Name) : ElfBinary :=
  { name := programName
    baseAddress := 0
    allocatedSize := 0
    refCount := 0
    interpreterName := []
    interpreterFileHandle := 0
    tlsDataSize := 0
    tbssSize := 0
    tlsAlign := 0 }

/-- An answer of rpmalloc: the object, and the sizes that it asked VirtualAlloc for. -/
structure Grant where
  object : ℕ
  sizes : List ℕ
  sizes_lt : ∀ size ∈ sizes, size < 2 ^ 64

theorem no_sizes : ∀ size ∈ ([] : List ℕ), size < 2 ^ 64 :=
  fun _ h => absurd h List.not_mem_nil

/-- The volumes with the pages and the open files, the binaries in memory by their
addresses, the entries of GELFBinaries, the answers that rpmalloc will give, and the
blocks that it has mapped. -/
structure State where
  system : System
  heap : ℕ → Option ElfBinary
  gELFBinaries : List ℕ
  grants : List Grant
  heapBlocks : List Allocation

structure Process where
  defaultThreadStackBase : ℕ
  tls : TlsAllocation
  binary : ℕ
  subBinary : Option ℕ
deriving DecidableEq, Repr

abbrev defaultThreadStackSize : ℕ := 128 * 1024

inductive Fault
  | volume (fault : VolumeCalls.Fault)
  | memory (fault : Enkel.Fault)
  | assertion (message : String)
  | nullPointer
  | useAfterFree
  | notFresh
  | noSlot
deriving DecidableEq, Repr

namespace State

def memory (s : State) : KernelMemory := s.system.memory

def withMemory (s : State) (memory : KernelMemory) : State :=
  { s with system := { s.system with memory := memory } }

section Calls
variable (depth : ℕ)

/-- VirtualAlloc of a block that is written at once. -/
def virtualAlloc (byteSize : ℕ) (s : State) : Except Fault (ℕ × State) := do
  let (address, memory) ←
    (s.memory.virtualAlloc depth byteSize .user pageFlagsNone).mapError .memory
  require (address ≠ 0) .nullPointer
  return (address, s.withMemory memory)

def virtualFree (address byteSize : ℕ) (s : State) : Except Fault State := do
  let memory ← (s.memory.virtualFree depth address byteSize).mapError .memory
  return s.withMemory memory

def rpMallocMap (size : ℕ) (s : State) : Except Fault State := do
  let (address, memory) ←
    (s.memory.virtualAlloc depth size .kernel pageFlagsNone).mapError .memory
  require (address ≠ 0) (.assertion "Failed to map virtual memory block")
  let block := ⟨address, memory.getPhysicalAddress address true, size⟩
  return { s.withMemory memory with heapBlocks := block :: s.heapBlocks }

def rpMalloc (s : State) : Except Fault (ℕ × State) :=
  match s.grants with
  | [] => .error .nullPointer
  | grant :: grants => do
    let s ← grant.sizes.foldlM (fun s size => rpMallocMap depth size s)
      { s with grants := grants }
    return (grant.object, s)

/-- The loop over the names at the start of LoadElfFromMemory. An entry whose binary was
freed is read as well; `stale` is what stands in its place. -/
def lookup (stale : ℕ → Name) (heap : ℕ → Option ElfBinary) (programName : Name) :
    List ℕ → Except Fault (Option ℕ)
  | [] => .ok none
  | p :: entries =>
    match heap p with
    | none =>
      if stale p = programName then .error .useAfterFree
      else lookup stale heap programName entries
    | some binary =>
      if binary.name = programName then .ok (some p) else lookup stale heap programName entries

def unloadElf (p : ℕ) (s : State) : Except Fault State :=
  match s.heap p with
  | none => .error .useAfterFree
  | some binary =>
    let refCount := sub64 binary.refCount 1
    if refCount = 0 then do
      let s ← virtualFree depth binary.baseAddress binary.allocatedSize s
      return { s with heap := Function.update s.heap p none }
    else
      .ok { s with heap := Function.update s.heap p (some { binary with refCount := refCount }) }

section Load
variable (devices : Devices) (xxh64 : List ℕ → ℕ)

/-- VolumeOpenHandle. FAT asks rpmalloc for the FIL. -/
def openHandle (path : Name) (s : State) : Except Fault (ℕ × State) := do
  let (_, s) ← rpMalloc depth s
  let (opened, system) ←
    (s.system.volumeOpenHandle depth devices xxh64 0 path).mapError .volume
  return (opened.value, { s with system := system })

/-- The loop over the .interp sections, up to the first that cannot be opened. -/
def openInterpreters : List Name → (last : Name × ℕ) → State →
    Except Fault (Option (Name × ℕ) × State)
  | [], last, s => .ok (some last, s)
  | interpreter :: rest, _, s => do
    let (handle, s) ← openHandle depth devices xxh64 interpreter s
    if handle = 0 then return (none, s)
    else openInterpreters rest (interpreter, handle) s

variable (parse : List UInt8 → Image) (stale : ℕ → Name)

/-- LoadElfFromMemory. A binary is given up with UnloadElf before it has a reference or
the address of its block. -/
def loadElfFromMemory (programName : Name) (image : Image) (s : State) :
    Except Fault (Option ℕ × State) := do
  match ← lookup stale s.heap programName s.gELFBinaries with
  | some existing => return (some existing, s)
  | none =>
    let (elfBinary, s) ← rpMalloc depth s
    require (s.heap elfBinary = none) .notFresh
    match image.failure with
    | some message => throw (.assertion message)
    | none =>
      let (programStart, s) ← virtualAlloc depth image.allocatedSize s
      let blank := ElfBinary.blank programName
      match ← openInterpreters depth devices xxh64 image.interp
          (blank.interpreterName, blank.interpreterFileHandle) s with
      | (none, s) =>
        let s ← unloadElf depth elfBinary
          { s with heap := Function.update s.heap elfBinary (some blank) }
        return (none, s)
      | (some (interpreterName, interpreterFileHandle), s) =>
        require (s.gELFBinaries.length < slots) .noSlot
        let binary :=
          { name := programName
            baseAddress := programStart
            allocatedSize := image.allocatedSize
            refCount := 1
            interpreterName := interpreterName
            interpreterFileHandle := interpreterFileHandle
            tlsDataSize := image.tlsDataSize
            tbssSize := image.tbssSize
            tlsAlign := image.tlsAlign % 2 ^ 16 }
        return (some elfBinary,
          { s with
            heap := Function.update s.heap elfBinary (some binary)
            gELFBinaries := s.gELFBinaries ++ [elfBinary] })

def loadElfFromHandle (programName : Name) (handle : ℕ) (s : State) :
    Except Fault (Option ℕ × State) :=
  if handle ≠ 0 then do
    let fileSize ← (s.system.volumeGetSize handle).mapError .volume
    let alignedSize := alignSize fileSize pageSize
    let (buffer, s) ← virtualAlloc depth alignedSize s
    let (_, bytes, system) ← (s.system.volumeRead devices handle 0 fileSize).mapError .volume
    let (binary, s) ← loadElfFromMemory depth devices xxh64 stale programName (parse bytes)
      { s with system := system }
    let s ← virtualFree depth buffer alignedSize s
    return (binary, s)
  else
    .ok (none, s)

def loadElf (programName : Name) (s : State) : Except Fault (Option ℕ × State) := do
  let (handle, s) ← openHandle depth devices xxh64 programName s
  if handle ≠ 0 then
    let (binary, s) ← loadElfFromHandle depth devices xxh64 parse stale programName handle s
    let system ← (s.system.volumeCloseHandle depth handle).mapError .volume
    return (binary, { s with system := system })
  else
    return (none, s)

def createUserModeTLS (binary : ElfBinary) (s : State) : Except Fault (TlsAllocation × State) := do
  let (_, s) ← rpMalloc depth s
  let z := tlsSizes binary.tlsDataSize binary.tbssSize binary.tlsAlign
  let (tls, s) ← virtualAlloc depth z.tlsAllocationSize s
  return ({ memory := tls
            size := z.tlsAllocationSize
            fsBase := add64 tls z.alignedSize }, s)

/-- The binary that runs: that of the interpreter, if there is one. -/
def loadInterpreter (p : ℕ) (s : State) : Except Fault ((ℕ × Option ℕ) × State) :=
  match s.heap p with
  | none => .error .useAfterFree
  | some binary =>
    if binary.interpreterFileHandle = 0 then
      .ok ((p, none), s)
    else do
      match ← loadElfFromHandle depth devices xxh64 parse stale binary.interpreterName
          binary.interpreterFileHandle s with
      | (none, _) => throw .nullPointer
      | (some q, s) => return ((q, some p), s)

/-- CreateProcess; the process runs before it returns. -/
def createProcess (programName : Name) (s : State) : Except Fault (Option Process × State) := do
  let (_, s) ← rpMalloc depth s
  let (stack, s) ← virtualAlloc depth defaultThreadStackSize s
  match ← loadElf depth devices xxh64 parse stale programName s with
  | (none, s) => return (none, s)
  | (some p, s) =>
    let ((binary, subBinary), s) ← loadInterpreter depth devices xxh64 parse stale p s
    match s.heap binary with
    | none => throw .useAfterFree
    | some elfBinary =>
      let (tls, s) ← createUserModeTLS depth elfBinary s
      return (some ⟨stack, tls, binary, subBinary⟩, s)

def destroyProcess (process : Process) (s : State) : Except Fault State := do
  let s ← virtualFree depth process.defaultThreadStackBase defaultThreadStackSize s
  let s ← virtualFree depth process.tls.memory process.tls.size s
  unloadElf depth process.binary s

def runProgram (programName : Name) (s : State) : Except Fault State := do
  match ← createProcess depth devices xxh64 parse stale programName s with
  | (none, s) => return s
  | (some process, s) => destroyProcess depth process s

end Load

end Calls

end State

end Enkel.ProgramRun
