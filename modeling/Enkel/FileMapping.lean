import Enkel.TranslatedMemory
import Enkel.ByteMemory
import Enkel.VolumeTable
import Enkel.UserMapping

/-!
sys_memory_map with the bytes that it writes. The machine holds the contents of
physical memory beside the page tables, and every store goes through the
translation of the kernel. FatVolume_Read is here too, over files of FatFs that
are open for reading: FSIZE_t and UINT have 32 bits, and a seek stops at the end
of the file.
-/
namespace Enkel.FileMapping

open Outcome MemoryState Paging KernelMemory TranslatedMemory

/-- An open file of FatFs: what f_read delivers, and the file pointer. -/
structure Fil where
  contents : List UInt8
  fptr : ℕ
  size_lt : contents.length < 2 ^ 32
  fptr_le : fptr ≤ contents.length

def Fil.fSize (fil : Fil) : ℕ := fil.contents.length

def Fil.fTell (fil : Fil) : ℕ := fil.fptr

def Fil.fLseek (fil : Fil) (ofs : ℕ) : Fil :=
  { fil with
    fptr := min (ofs % 2 ^ 32) fil.contents.length
    fptr_le := Nat.min_le_right _ _ }

/-- The bytes that f_read delivers of the `btr` bytes asked for. -/
def Fil.delivered (fil : Fil) (btr : ℕ) : List UInt8 :=
  (fil.contents.drop fil.fptr).take (btr % 2 ^ 32)

theorem Fil.fptr_add_delivered_le (fil : Fil) (btr : ℕ) :
    fil.fptr + (fil.delivered btr).length ≤ fil.contents.length := by
  have hle := fil.fptr_le
  unfold delivered
  rw [List.length_take, List.length_drop]
  omega

def Fil.fRead (fil : Fil) (btr : ℕ) : List UInt8 × Fil :=
  (fil.delivered btr,
    { fil with
      fptr := fil.fptr + (fil.delivered btr).length
      fptr_le := fil.fptr_add_delivered_le btr })

/-- How the Read function of a volume can stop. -/
inductive VolumeFault
  | assertion (message : String)
  /-- FileHandles is read behind its end. -/
  | handleOutOfRange
  /-- The file of a handle that is not open, or the Read function of a stream that
  has none. -/
  | nullPointer
deriving DecidableEq, Repr

/-- A volume: FAT, or one with a Read function of its own, which delivers at most the
bytes asked for. -/
inductive Volume
  | fat
  | other (read : (handle offset size : ℕ) →
      Except VolumeFault { bytes : List UInt8 // bytes.length ≤ size })

def maxFileHandles : ℕ := 512

abbrev FileHandles := ℕ → Option Fil

/-- The offset with which FatVolume_Read reads where the file pointer is. -/
abbrev currentOffset : ℕ := 2 ^ 64 - 1

/-- The seek, the read and the seek back of FatVolume_Read. -/
def readAt (fil : Fil) (offset size : ℕ) : List UInt8 × Fil :=
  let tell := fil.fTell
  let fil := if offset ≠ currentOffset then fil.fLseek offset else fil
  let (bytes, fil) := fil.fRead size
  (bytes, if offset ≠ currentOffset then fil.fLseek tell else fil)

/-- FatVolume_Read, with the bytes that it writes to the buffer. -/
def fatVolumeRead (handle offset size : ℕ) (fileHandles : FileHandles) :
    Except VolumeFault (List UInt8 × FileHandles) :=
  if size = 0 then
    .ok ([], fileHandles)
  else do
    let index := VolumeSystem.FileHandleMask.fileHandle handle
    require (index < maxFileHandles) .handleOutOfRange
    match fileHandles index with
    | none => throw .nullPointer
    | some fil =>
      require (offset ≠ currentOffset → offset < 2 ^ 63) (.assertion "Invalid offset")
      let (bytes, fil) := readAt fil offset size
      return (bytes, Function.update fileHandles index (some fil))

/-- What is mounted, and where the framebuffer is. -/
structure FileSystem where
  volumeIndices : VolumeSystem.VolumeIndices Volume
  framebufferBase : ℕ

namespace FileSystem

/-- A descriptor as a handle: the sign is extended to 64 bits. -/
def handleOf (fd : ℤ) : ℕ := (fd % 2 ^ 64).toNat

def implementation (fs : FileSystem) (fd : ℤ) : Option Volume :=
  (VolumeSystem.getVolumeIndex fs.volumeIndices (handleOf fd)).volumeImplementation

/-- What sys_memory_map asks before it looks at the descriptor. -/
def isDevice (fs : FileSystem) (fd : ℤ) : Bool :=
  (fs.implementation fd).isSome && decide (VolumeSystem.FileHandleMask.segments (handleOf fd) = 2)

def volumes (fs : FileSystem) : Volumes :=
  { isDevice := fs.isDevice
    framebufferBase := fs.framebufferBase }

/-- VolumeRead. A descriptor without a volume is an error value, and nothing is read. -/
def volumeRead (fs : FileSystem) (fd : ℤ) (offset size : ℕ) (fileHandles : FileHandles) :
    Except VolumeFault (List UInt8 × FileHandles) :=
  match fs.implementation fd with
  | none => .ok ([], fileHandles)
  | some .fat => fatVolumeRead (handleOf fd) offset size fileHandles
  | some (.other read) => do
    let bytes ← read (handleOf fd) offset size
    return (bytes.val, fileHandles)

theorem length_readAt_le (fil : Fil) (offset size : ℕ) : (readAt fil offset size).1.length ≤ size := by
  have hmod := Nat.mod_le size (2 ^ 32)
  have hle : ∀ fil : Fil, (fil.delivered size).length ≤ size := fun fil => by
    unfold Fil.delivered
    rw [List.length_take]
    omega
  exact hle _

theorem length_volumeRead_le {fs : FileSystem} {fd : ℤ} {offset size : ℕ}
    {fileHandles : FileHandles} {r : List UInt8 × FileHandles}
    (h : fs.volumeRead fd offset size fileHandles = .ok r) : r.1.length ≤ size := by
  unfold volumeRead at h
  split at h
  · obtain rfl := Except.ok.inj h
    exact Nat.zero_le _
  · unfold fatVolumeRead at h
    split_ifs at h
    · obtain rfl := Except.ok.inj h
      exact Nat.zero_le _
    · obtain ⟨u, -, h⟩ := bind_eq_ok.mp h
      split at h
      · cases h
      · obtain ⟨v, -, h⟩ := bind_eq_ok.mp h
        obtain rfl := pure_eq_ok.mp h
        exact length_readAt_le _ _ _
  · obtain ⟨bytes, -, h⟩ := bind_eq_ok.mp h
    obtain rfl := pure_eq_ok.mp h
    exact bytes.property

end FileSystem

/-- How the system call can stop. -/
inductive Stop
  | memory (fault : Fault)
  | volume (fault : VolumeFault)
  | nullPointer
  | pageFault
deriving DecidableEq, Repr

/-- The page tables, the contents of physical memory and the open files. -/
structure Machine where
  memory : KernelMemory
  ram : ℕ → UInt8
  fileHandles : FileHandles

/-- The processor takes addresses whose upper 17 bits agree. -/
def Canonical (address : ℕ) : Prop := address < 2 ^ 47 ∨ 2 ^ 64 - 2 ^ 47 ≤ address

instance (address : ℕ) : Decidable (Canonical address) := inferInstanceAs (Decidable (_ ∨ _))

/-- Where an access of the kernel ends up. -/
def translate (k : KernelMemory) (address : ℕ) : Option ℕ :=
  if Canonical address ∧ k.getPhysicalAddress address true ≠ invalidAddress then
    some (k.getPhysicalAddress address true)
  else
    none

/-- The word that FillUnique writes at each place. -/
def fillBase : ℕ := 0x7FFFFFFF0000

/-- The bytes of the words of FillUnique, by their distance from the start. -/
def fillByte (i : ℕ) : UInt8 := ByteMemory.digit (fillBase + i / 8) (i % 8)

namespace Machine

def load (m : Machine) (address : ℕ) : Option UInt8 := loadByte (translate m.memory) m.ram address

/-- A store of `n` bytes to a buffer. -/
def store (address : ℕ) (f : ℕ → UInt8) (n : ℕ) (m : Machine) : Except Stop Machine :=
  if n = 0 then
    .ok m
  else do
    require (address ≠ 0) .nullPointer
    match storeBytes (translate m.memory) address f n m.ram with
    | none => throw .pageFault
    | some ram => return { m with ram := ram }

def fillUnique (address byteCount : ℕ) (m : Machine) : Except Stop Machine :=
  m.store address fillByte (8 * (byteCount / 8))

def memset (address : ℕ) (value : UInt8) (byteCount : ℕ) (m : Machine) : Except Stop Machine :=
  m.store address (fun _ => value) byteCount

/-- VirtualAlloc: unless the search for physical memory has failed, the first word
of the block is set to zero. -/
def virtualAlloc (depth byteSize : ℕ) (m : Machine) : Except Stop (ℕ × Machine) := do
  let physicalAddress ←
    (m.memory.physicalMemoryState.findMinimumSizeFreeBlock byteSize).mapError Stop.memory
  let (address, memory) ←
    (m.memory.virtualAlloc depth byteSize .user pageFlagsNone).mapError Stop.memory
  if physicalAddress = 0 then
    return (address, { m with memory := memory })
  let m ← { m with memory := memory }.store address (ByteMemory.digit 0) 8
  return (address, m)

/-- The memory that is returned: the address given, or a new allocation. -/
def givenMemory (depth address alignedSize : ℕ) (m : Machine) : Except Stop (ℕ × Machine) :=
  if address ≠ 0 then
    .ok (address, m)
  else
    m.virtualAlloc depth alignedSize

/-- VolumeRead into a buffer. -/
def volumeRead (fs : FileSystem) (fd : ℤ) (offset buffer size : ℕ) (m : Machine) :
    Except Stop Machine := do
  let (bytes, fileHandles) ← (fs.volumeRead fd offset size m.fileHandles).mapError Stop.volume
  { m with fileHandles := fileHandles }.store buffer (fun i => bytes.getD i 0) bytes.length

/-- The first half of sys_memory_map: `none` stands for the return of -ENOMEM. -/
def mapFixed (depth address alignedSize : ℕ) (m : Machine) : Except Stop (Option Machine) := do
  match ← (Paging.mapFixed depth address alignedSize m.memory).mapError Stop.memory with
  | none => return none
  | some memory =>
    let m := { m with memory := memory }
    if address = 0 then
      return some m
    let m ← m.fillUnique address alignedSize
    return some m

/-- The second half of sys_memory_map. -/
def returnMemory (depth : ℕ) (fs : FileSystem) (address length : ℕ) (fd : ℤ) (offset : ℕ)
    (m : Machine) : Except Stop (ℕ × Machine) :=
  if fs.isDevice fd then
    .ok (fs.framebufferBase, m)
  else if fd = -1 then do
    let (memory, m) ← m.givenMemory depth address (alignSize length pageSize)
    let m ← m.memset memory 0 (alignSize length pageSize)
    return (memory, m)
  else if 0 < fd then do
    let (memory, m) ← m.givenMemory depth address (alignSize length pageSize)
    let m ← m.volumeRead fs fd offset memory length
    return (memory, m)
  else
    .ok (0, m)

def sysMemoryMap (depth : ℕ) (fs : FileSystem) (address length _prot _flags : ℕ) (fd : ℤ)
    (offset : ℕ) (m : Machine) : Except Stop (ℕ × Machine) := do
  match ← m.mapFixed depth address (alignSize length pageSize) with
  | none => return (noMemory, m)
  | some m => m.returnMemory depth fs address length fd offset

section Memory
variable {depth address length prot flags offset n : ℕ} {fs : FileSystem} {fd : ℤ}
  {m m' : Machine} {f : ℕ → UInt8} {r : ℕ}

/-- A store changes the contents of memory only. -/
theorem store_eq_ok (h : m.store address f n = .ok m') :
    ∃ ram, m' = { m with ram := ram } := by
  unfold store at h
  split_ifs at h
  · obtain rfl := Except.ok.inj h
    exact ⟨m.ram, rfl⟩
  · obtain ⟨u, -, h⟩ := bind_eq_ok.mp h
    split at h
    · cases h
    · exact ⟨_, (pure_eq_ok.mp h).symm⟩

theorem memory_of_store (h : m.store address f n = .ok m') : m'.memory = m.memory := by
  obtain ⟨ram, rfl⟩ := store_eq_ok h
  rfl

theorem memory_of_volumeRead {buffer size : ℕ}
    (h : m.volumeRead fs fd offset buffer size = .ok m') : m'.memory = m.memory := by
  obtain ⟨⟨bytes, fileHandles⟩, -, h⟩ := bind_eq_ok.mp h
  exact memory_of_store (m := { m with fileHandles := fileHandles }) h

/-- VirtualAlloc with its first word does to the page states what VirtualAlloc does. -/
theorem memory_of_virtualAlloc {byteSize : ℕ} (h : m.virtualAlloc depth byteSize = .ok (r, m')) :
    m.memory.virtualAlloc depth byteSize .user pageFlagsNone = .ok (r, m'.memory) := by
  obtain ⟨physicalAddress, -, h⟩ := bind_eq_ok.mp h
  obtain ⟨⟨virtualAddress, memory⟩, halloc, h⟩ := bind_eq_ok.mp h
  have halloc := mapError_eq_ok.mp halloc
  dsimp only at h
  split_ifs at h
  · cases h
    exact halloc
  · obtain ⟨m1, hstore, h⟩ := bind_eq_ok.mp h
    cases h
    rw [memory_of_store hstore]
    exact halloc

theorem memory_of_givenMemory {alignedSize : ℕ}
    (h : m.givenMemory depth address alignedSize = .ok (r, m')) :
    Paging.givenMemory depth address alignedSize m.memory = .ok (r, m'.memory) := by
  unfold givenMemory at h
  unfold Paging.givenMemory
  split_ifs at h ⊢
  · cases h
    rfl
  · exact memory_of_virtualAlloc h

theorem memory_of_returnMemory
    (h : m.returnMemory depth fs address length fd offset = .ok (r, m')) :
    Paging.returnMemory depth fs.volumes address (alignSize length pageSize) fd m.memory =
      .ok (r, m'.memory) := by
  unfold returnMemory at h
  unfold Paging.returnMemory
  have hdevice : fs.volumes.isDevice fd = fs.isDevice fd := rfl
  rw [hdevice]
  split_ifs at h ⊢
  · cases h
    rfl
  · obtain ⟨⟨memory, m1⟩, hgiven, h⟩ := bind_eq_ok.mp h
    obtain ⟨m2, hset, h⟩ := bind_eq_ok.mp h
    cases h
    refine bind_eq_ok.mpr ⟨(r, m1.memory), memory_of_givenMemory hgiven, ?_⟩
    refine bind_eq_ok.mpr ⟨(), require_true ?_, ?_⟩
    · -- the memset is empty, or its address is not null
      by_contra hnull
      rw [not_or, not_not] at hnull
      obtain ⟨rfl, hsize⟩ := hnull
      unfold memset store at hset
      rw [if_neg hsize] at hset
      obtain ⟨u, hnull, -⟩ := bind_eq_ok.mp hset
      exact require_eq_ok.mp hnull rfl
    · rw [memory_of_store hset]
      rfl
  · obtain ⟨⟨memory, m1⟩, hgiven, h⟩ := bind_eq_ok.mp h
    obtain ⟨m2, hread, h⟩ := bind_eq_ok.mp h
    cases h
    rw [memory_of_volumeRead hread]
    exact memory_of_givenMemory hgiven
  · cases h
    rfl

theorem memory_of_mapFixed {alignedSize : ℕ} {given : Option Machine}
    (h : m.mapFixed depth address alignedSize = .ok given) :
    Paging.mapFixed depth address alignedSize m.memory = .ok (given.map (·.memory)) := by
  obtain ⟨memory, hfixed, h⟩ := bind_eq_ok.mp h
  rw [mapError_eq_ok.mp hfixed]
  cases memory with
  | none =>
    cases h
    rfl
  | some memory =>
    dsimp only at h
    split_ifs at h
    · cases h
      rfl
    · obtain ⟨m1, hfill, h⟩ := bind_eq_ok.mp h
      cases h
      have hmemory : m1.memory = memory := memory_of_store hfill
      rw [← hmemory]
      rfl

/-- The system call with its stores does to the page states what it does without them. -/
theorem memory_of_sysMemoryMap
    (h : m.sysMemoryMap depth fs address length prot flags fd offset = .ok (r, m')) :
    Paging.sysMemoryMap depth fs.volumes address length prot flags fd offset m.memory =
      .ok (r, m'.memory) := by
  obtain ⟨given, hfixed, h⟩ := bind_eq_ok.mp h
  refine bind_eq_ok.mpr ⟨_, memory_of_mapFixed hfixed, ?_⟩
  cases given with
  | none =>
    cases h
    rfl
  | some m1 => exact memory_of_returnMemory h

end Memory

end Machine

end Enkel.FileMapping
