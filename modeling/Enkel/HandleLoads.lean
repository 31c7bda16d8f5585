import Enkel.FileLoads
import Enkel.HeapContents
import Enkel.ProcessStack
import Enkel.RunBalance

/-!
LoadElfFromHandle with whatever VolumeGetSize and VolumeRead answer. The buffer is filled with
a pattern before the read, so what its pages held before is never seen. But neither answer is
looked at: an error as a size is rounded up to zero, and after a read that fails the loader
takes the pattern for a file. A binary that is given up for its interpreter leaves its block
behind.
-/
namespace Enkel.HandleLoads

open Outcome ByteMemory Paging ElfFile ProgramRun
open Trace Traced
open BinaryRegistry (Name slots)
open VolumeCalls (Devices)
open ProcessStack (fillUnique)
open ProgramBreak (allocated)

/-- What the volume of a file answers: the result of VolumeGetSize, and the bytes that
VolumeRead has written to the buffer. What VolumeRead returns is not looked at. -/
structure Answers where
  fileSize : ℕ
  bytes : List UInt8
  fileSize_lt : fileSize < 2 ^ 64
  length_le : bytes.length ≤ fileSize

/-- How LoadElfFromHandle can stop. -/
inductive Stop
  | load (stop : ElfFile.Stop ProgramRun.Fault)
  | kernel (fault : ProgramRun.Fault)
  | pageFault
deriving DecidableEq, Repr

section Kernel
variable (depth : ℕ) (devices : Devices) (xxh64 : List ℕ → ℕ) (stale : ℕ → Name)

/-- The binary in the heap. -/
def heapBinary (binary : Elf.ElfBinary) (interpreter : Name × ℕ) : ProgramRun.ElfBinary :=
  { name := binary.name
    baseAddress := binary.baseAddress
    allocatedSize := binary.allocatedSize
    refCount := binary.refCount
    interpreterName := interpreter.1
    interpreterFileHandle := interpreter.2
    tlsDataSize := binary.tlsDataSize
    tbssSize := binary.tbssSize
    tlsAlign := binary.tlsAlign }

/-- The kernel with its pages, volumes and binaries. -/
def kernel : Kernel State ProgramRun.Fault ℕ where
  lookup programName s := State.lookup stale s.heap programName s.gELFBinaries
  rpmalloc s := do
    let (elfBinary, s) ← State.rpMalloc depth s
    require (s.heap elfBinary = none) .notFresh
    return (elfBinary, s)
  virtualAlloc byteSize s := State.virtualAlloc depth byteSize s
  volumeOpenHandle path s := State.openHandle depth devices xxh64 path s
  unloadElf elfBinary programName s :=
    State.unloadElf depth elfBinary
      { s with heap := Function.update s.heap elfBinary (some (.blank programName)) }
  enter elfBinary binary interpreter s := do
    require (s.gELFBinaries.length < slots) .noSlot
    return { s with
      heap := Function.update s.heap elfBinary (some (heapBinary binary interpreter))
      gELFBinaries := s.gELFBinaries ++ [elfBinary] }

end Kernel

/-- The buffer of a file, over what its pages held: the pattern, and then what was read. -/
def fileBuffer (buffer alignedSize : ℕ) (bytes : List UInt8) (pages : ℕ → UInt8) (b : ℕ → UInt8) :
    Elf.Memory :=
  ThreadLocal.store buffer (fun i => bytes.getD i 0) bytes.length
    (fillUnique buffer 0xe1fb000000000000 alignedSize ⟨allocated buffer alignedSize pages b, []⟩)

section Load
variable (depth : ℕ) (devices : Devices) (xxh64 : List ℕ → ℕ) (stale : ℕ → Name)
  (accessible : ℕ × ℕ → Prop) [DecidablePred accessible]

/-- LoadElfFromHandle, with the bytes in memory before the call and those in the pages that
the buffer gets. A read or a write of a range that is not accessible is a page fault. -/
def loadElfFromHandle (programName : Name) (handle : ℕ) (answers : Answers) (b : ℕ → UInt8)
    (s : State) (pages : ℕ → UInt8) : Except Stop (Option ℕ × (ℕ → UInt8) × State) :=
  if handle ≠ 0 then do
    let alignedSize := alignSize answers.fileSize pageSize
    let (buffer, s) ← (s.virtualAlloc depth alignedSize).mapError .kernel
    let load := loadElfFromMemory (kernel depth devices xxh64 stale) buffer programName
      (fileBuffer buffer alignedSize answers.bytes pages b) s
    require (load.All accessible) .pageFault
    let (binary, m, s) ← load.result.mapError .load
    require (∀ w ∈ m.log, accessible w) .pageFault
    let s ← (s.virtualFree depth buffer alignedSize).mapError .kernel
    return (binary, m.bytes, s)
  else
    .ok (none, b, s)

end Load

section Buffer
variable {buffer size : ℕ} {bytes : List UInt8} {b : ℕ → UInt8}

/-- What the pages of the buffer held before is not seen. -/
theorem fileBuffer_pages (hmod : size % 8 = 0) (hend : buffer + size ≤ 2 ^ 64)
    (pages pages' : ℕ → UInt8) :
    fileBuffer buffer size bytes pages b = fileBuffer buffer size bytes pages' b := by
  have hfill : fillUnique buffer 0xe1fb000000000000 size ⟨allocated buffer size pages b, []⟩ =
      fillUnique buffer 0xe1fb000000000000 size ⟨allocated buffer size pages' b, []⟩ := by
    unfold fillUnique ThreadLocal.store
    dsimp only
    congr 1
    funext a
    refine writeBytes_congr fun hout => ?_
    have hin : ¬ (buffer ≤ a ∧ a < buffer + size) := by
      rintro ⟨hlo, hhi⟩
      exact hout (a - buffer) (by omega) (by omega)
    unfold allocated writeWord
    refine writeBytes_congr fun _ => ?_
    rw [if_neg hin, if_neg hin]
  unfold fileBuffer
  rw [hfill]

end Buffer

/-- The page states and the binaries are as before. -/
structure Unchanged (s s' : State) : Prop where
  virt : ∀ x < pageMask, virtState s'.memory x = virtState s.memory x
  phys : ∀ x < s.memory.physicalMemoryState.highestAddress,
    physState s'.memory x = physState s.memory x
  heap : s'.heap = s.heap
  binaries : s'.gELFBinaries = s.gELFBinaries

section Claim
variable (depth : ℕ) (devices : Devices) (xxh64 : List ℕ → ℕ) (stale : ℕ → Name)
  (accessible : ℕ × ℕ → Prop) [DecidablePred accessible] (programName : Name) (handle : ℕ)
  (answers : Answers) (b : ℕ → UInt8) (s : State)

/-- Whatever the pages of the buffer held, the call returns the same: a binary, or the null
pointer with everything as it was. -/
def Clean : Prop :=
  ∃ r, (∀ pages, loadElfFromHandle depth devices xxh64 stale accessible programName handle answers
      b s pages = .ok r) ∧
    (r.1 = none → Unchanged s r.2.2)

/-- The bytes of the file in the memory: what was read, and the pattern behind it. -/
abbrev fileContents (buffer : ℕ) : Elf.Memory :=
  fileBuffer buffer (alignSize answers.fileSize pageSize) answers.bytes (fun _ => 0) b

/-- The steps of a call that returns a binary: there is a block for the buffer, the binary is
in the list or its contents are loaded as a new one, nothing else is touched, and the buffer
is freed. -/
structure Accepts (buffer : ℕ) (s1 : State) (elfBinary : ℕ) (m : Elf.Memory) (s2 s3 : State) :
    Prop where
  block : s.virtualAlloc depth (alignSize answers.fileSize pageSize) = .ok (buffer, s1)
  load : (State.lookup stale s1.heap programName s1.gELFBinaries = .ok (some elfBinary) ∧
      m = fileContents answers b buffer ∧ s2 = s1) ∨
    State.lookup stale s1.heap programName s1.gELFBinaries = .ok none ∧
      ∃ sa programStart sb last sc,
        (kernel depth devices xxh64 stale).rpmalloc s1 = .ok (elfBinary, sa) ∧
        LoadsNew (kernel depth devices xxh64 stale) buffer programName elfBinary
          (fileContents answers b buffer) sa programStart sb last sc m s2
  reads : (loadElfFromMemory (kernel depth devices xxh64 stale) buffer programName
    (fileContents answers b buffer) s1).All accessible
  writes : ∀ w ∈ m.log, accessible w
  freed : s2.virtualFree depth buffer (alignSize answers.fileSize pageSize) = .ok s3

variable {depth devices xxh64 stale accessible programName handle answers b s}

/-- A buffer is a block of pages. -/
theorem buffer_grows (h : Running s.memory) {buffer : ℕ} {s1 : State}
    (halloc : s.virtualAlloc depth (alignSize answers.fileSize pageSize) = .ok (buffer, s1)) :
    Grows s.system s1.system ∧ 0 < alignSize answers.fileSize pageSize ∧
      Handed s.memory s1.memory buffer (alignSize answers.fileSize pageSize) :=
  (State.virtualAlloc_grows h (alignSize_lt _)).of_eq_ok halloc

theorem rpmalloc_grows (h : Running s.memory) {elfBinary : ℕ} {s1 : State}
    (hmalloc : (kernel depth devices xxh64 stale).rpmalloc s = .ok (elfBinary, s1)) :
    Grows s.system s1.system := by
  obtain ⟨⟨p, s2⟩, hrun, hmalloc⟩ := bind_eq_ok.mp hmalloc
  obtain ⟨_, -, hmalloc⟩ := bind_eq_ok.mp hmalloc
  cases hmalloc
  exact (State.rpMalloc_grows h).of_eq_ok hrun

/-- A binary that is given up leaves its block behind. -/
theorem givesUp_used {elfBinary programStart : ℕ} {m : Elf.Memory} {buffer : ℕ}
    {s1 s2 s' : State} (h : Running s.memory)
    (hgives : GivesUp (kernel depth devices xxh64 stale) buffer programName elfBinary m s
      programStart s1 s2 s') :
    Running s'.memory ∧ programStart < pageMask ∧ virtState s.memory programStart = .free ∧
      virtState s'.memory programStart ≠ .free := by
  have halloc : s.virtualAlloc depth (Elf.blockSize m.bytes buffer) = .ok (programStart, s1) :=
    hgives.alloc
  obtain ⟨hgrows, hpos, hhanded⟩ := (State.virtualAlloc_grows h Elf.blockSize_lt).of_eq_ok halloc
  have hle := hhanded.le
  have hopened : Grows s1.system s2.system := by
    refine hgives.keeps (fun s => Grows s1.system s.system) (fun path t handle t' ht hopen => ?_)
      (Grows.refl hgrows.running)
    exact ht.trans ((State.openHandle_grows ht.running).of_eq_ok hopen)
  let blank : State :=
    { s2 with heap := Function.update s2.heap elfBinary (some (.blank programName)) }
  have hunload : State.unloadElf depth elfBinary blank = .ok s' := hgives.unload
  have hheap : blank.heap elfBinary = some (.blank programName) := Function.update_self _ _ _
  have hsystem : s'.system = s2.system := (State.unloadElf_blank hheap).of_eq_ok hunload
  have hmemory : s'.memory = s2.memory := congrArg VolumeCalls.System.memory hsystem
  rw [hmemory]
  refine ⟨hopened.running, by omega, hhanded.before _ le_rfl (by omega), ?_⟩
  exact hopened.keeps _ (by omega) (hhanded.after _ le_rfl (by omega))

/-- VirtualFree keeps in use what is not in its range. -/
theorem virtualFree_keeps (h : Running s.memory) {address size x : ℕ} (hlt : size < 2 ^ 64)
    {s' : State} (hfree : s.virtualFree depth address size = .ok s') (hx : x < pageMask)
    (hout : ¬ (address ≤ x ∧ x < address + size)) (hused : virtState s.memory x ≠ .free) :
    virtState s'.memory x ≠ .free := by
  obtain ⟨k, hk, hs'⟩ := bind_eq_ok.mp hfree
  cases hs'
  exact ((Running.virtualFree h hlt).of_eq_ok (mapError_eq_ok.mp hk)).2 x hx hout hused

/-- A call that gives a binary up changes the page states: the block is still in use. -/
theorem not_unchanged_of_none (h : Running s.memory) (hne : handle ≠ 0) {pages b' : ℕ → UInt8}
    {s' : State} (hrun : loadElfFromHandle depth devices xxh64 stale accessible programName handle
      answers b s pages = .ok (none, b', s')) : ¬ Unchanged s s' := by
  unfold loadElfFromHandle at hrun
  rw [if_pos hne] at hrun
  obtain ⟨⟨buffer, s1⟩, halloc, hrun⟩ := bind_eq_ok.mp hrun
  obtain ⟨_, -, hrun⟩ := bind_eq_ok.mp hrun
  obtain ⟨⟨binary, m, s2⟩, hload, hrun⟩ := bind_eq_ok.mp hrun
  obtain ⟨_, -, hrun⟩ := bind_eq_ok.mp hrun
  obtain ⟨s3, hfree, hrun⟩ := bind_eq_ok.mp hrun
  cases hrun
  obtain ⟨hbuffer, -, hhanded⟩ := buffer_grows h (mapError_eq_ok.mp halloc)
  obtain ⟨_, -, hq, -, -⟩ | ⟨-, elfBinary, sa, hmalloc, hnew⟩ :=
    result_loadElfFromMemory.mp (mapError_eq_ok.mp hload)
  · cases hq
  have hgrown := rpmalloc_grows hbuffer.running hmalloc
  have hle := hhanded.le
  have hstart : buffer < 2 ^ 64 := by
    have hmask : pageMask < 2 ^ 64 := by decide
    omega
  obtain ⟨programStart, sb, sc, hgives⟩ := result_loadNew_none hstart hnew
  obtain ⟨hrunning, hlt, hfresh, hused⟩ := givesUp_used hgrown.running hgives
  -- the block was Free before the call, so it is not in the buffer
  have hgrows : Grows s.system sa.system := hbuffer.trans hgrown
  have hbefore : virtState s.memory programStart = .free := by
    by_contra hwas
    exact hgrows.keeps _ hlt hwas hfresh
  have hout : ¬ (buffer ≤ programStart ∧
      programStart < buffer + alignSize answers.fileSize pageSize) := by
    rintro ⟨hlo, hhi⟩
    exact hgrown.keeps _ hlt (hhanded.after _ hlo hhi) hfresh
  have hafter := virtualFree_keeps hrunning (alignSize_lt _) (mapError_eq_ok.mp hfree) hlt hout
    hused
  intro hunchanged
  exact hafter ((hunchanged.virt _ hlt).trans hbefore)

theorem buffer_lt (h : Running s.memory) {buffer : ℕ} {s1 : State}
    (halloc : s.virtualAlloc depth (alignSize answers.fileSize pageSize) = .ok (buffer, s1)) :
    buffer + alignSize answers.fileSize pageSize ≤ 2 ^ 64 ∧ buffer < 2 ^ 64 := by
  obtain ⟨-, hpos, hhanded⟩ := buffer_grows h halloc
  have hle := hhanded.le
  have hmask : pageMask < 2 ^ 64 := by decide
  omega

/-- The loader is given the same bytes whatever was in the pages. -/
theorem fileBuffer_handed (h : Running s.memory) {buffer : ℕ} {s1 : State}
    (halloc : s.virtualAlloc depth (alignSize answers.fileSize pageSize) = .ok (buffer, s1))
    (pages : ℕ → UInt8) :
    fileBuffer buffer (alignSize answers.fileSize pageSize) answers.bytes pages b =
      fileContents answers b buffer := by
  have hmod := alignSize_mod answers.fileSize
  exact fileBuffer_pages (by omega) (buffer_lt h halloc).1 pages _

/-- What an accepted call returns. -/
theorem Accepts.returns (h : Running s.memory) (hne : handle ≠ 0) {buffer elfBinary : ℕ}
    {s1 s2 s3 : State} {m : Elf.Memory}
    (haccepts : Accepts depth devices xxh64 stale accessible programName answers b s buffer s1
      elfBinary m s2 s3) (pages : ℕ → UInt8) :
    loadElfFromHandle depth devices xxh64 stale accessible programName handle answers b s pages =
      .ok (some elfBinary, m.bytes, s3) := by
  have hstart := (buffer_lt h haccepts.block).2
  have hload : (loadElfFromMemory (kernel depth devices xxh64 stale) buffer programName
      (fileContents answers b buffer) s1).result = .ok (some elfBinary, m, s2) := by
    refine result_loadElfFromMemory.mpr ?_
    rcases haccepts.load with ⟨hfound, rfl, rfl⟩ | ⟨hfound, sa, programStart, sb, last, sc,
      hmalloc, hnew⟩
    · exact Or.inl ⟨elfBinary, hfound, rfl, rfl, rfl⟩
    · exact Or.inr ⟨hfound, elfBinary, sa, hmalloc, (result_loadNew_some hstart).mpr
        ⟨rfl, programStart, sb, last, sc, hnew⟩⟩
  unfold loadElfFromHandle
  rw [if_pos hne]
  refine bind_eq_ok.mpr ⟨(buffer, s1), mapError_eq_ok.mpr haccepts.block, ?_⟩
  simp only [fileBuffer_handed h haccepts.block pages]
  refine bind_eq_ok.mpr ⟨(), require_true haccepts.reads, ?_⟩
  refine bind_eq_ok.mpr ⟨(some elfBinary, m, s2), mapError_eq_ok.mpr hload, ?_⟩
  refine bind_eq_ok.mpr ⟨(), require_true haccepts.writes, ?_⟩
  exact bind_eq_ok.mpr ⟨s3, mapError_eq_ok.mpr haccepts.freed, rfl⟩

/-- A call that returns a binary was accepted. -/
theorem accepts_of_returns (h : Running s.memory) (hne : handle ≠ 0) {pages b' : ℕ → UInt8}
    {elfBinary : ℕ} {s' : State}
    (hrun : loadElfFromHandle depth devices xxh64 stale accessible programName handle answers b s
      pages = .ok (some elfBinary, b', s')) :
    ∃ buffer s1 m s2, Accepts depth devices xxh64 stale accessible programName answers b s buffer
      s1 elfBinary m s2 s' := by
  unfold loadElfFromHandle at hrun
  rw [if_pos hne] at hrun
  obtain ⟨⟨buffer, s1⟩, halloc, hrun⟩ := bind_eq_ok.mp hrun
  have hblock := mapError_eq_ok.mp halloc
  have hstart := (buffer_lt h hblock).2
  simp only [fileBuffer_handed h hblock pages] at hrun
  obtain ⟨_, hreads, hrun⟩ := bind_eq_ok.mp hrun
  obtain ⟨⟨binary, m, s2⟩, hload, hrun⟩ := bind_eq_ok.mp hrun
  obtain ⟨_, hwrites, hrun⟩ := bind_eq_ok.mp hrun
  obtain ⟨s3, hfree, hrun⟩ := bind_eq_ok.mp hrun
  cases hrun
  refine ⟨buffer, s1, m, s2, hblock, ?_, require_eq_ok.mp hreads, require_eq_ok.mp hwrites,
    mapError_eq_ok.mp hfree⟩
  obtain ⟨_, hfound, hq, rfl, rfl⟩ | ⟨hfound, fresh, sa, hmalloc, hnew⟩ :=
    result_loadElfFromMemory.mp (mapError_eq_ok.mp hload)
  · cases hq
    exact Or.inl ⟨hfound, rfl, rfl⟩
  · obtain ⟨rfl, programStart, sb, last, sc, hloads⟩ := (result_loadNew_some hstart).mp hnew
    exact Or.inr ⟨hfound, sa, programStart, sb, last, sc, hmalloc, hloads⟩

/-- A size that is rounded up to zero has no block: an error that VolumeGetSize returns, or
the size of an empty file. -/
theorem not_clean_of_no_size (h : Running s.memory) (hne : handle ≠ 0)
    (hsize : alignSize answers.fileSize pageSize = 0) :
    ¬ Clean depth devices xxh64 stale accessible programName handle answers b s := by
  rintro ⟨⟨binary, b', s'⟩, hruns, -⟩
  have hrun := hruns fun _ => 0
  unfold loadElfFromHandle at hrun
  rw [if_pos hne] at hrun
  obtain ⟨⟨buffer, s1⟩, halloc, -⟩ := bind_eq_ok.mp hrun
  have hpos := (buffer_grows h (mapError_eq_ok.mp halloc)).2.1
  omega

/-- After a read that fails the buffer starts with the pattern. -/
theorem fileContents_first {buffer : ℕ} (hbytes : answers.bytes = [])
    (hsize : 8 ≤ alignSize answers.fileSize pageSize) (hbuffer : buffer < 2 ^ 64) :
    (fileContents answers b buffer).bytes buffer = 0 := by
  have hlt : 8 * (alignSize answers.fileSize pageSize / 8) ≤ 2 ^ 64 := by
    have halign := alignSize_lt answers.fileSize
    omega
  have hfirst : digit (add64 0xe1fb000000000000 (0 / 8)) (0 % 8) = 0 := by decide
  unfold fileContents fileBuffer fillUnique
  rw [hbytes]
  unfold ThreadLocal.store
  dsimp only [List.length_nil, writeBytes]
  have hzero : offset buffer buffer = 0 := by
    unfold offset
    omega
  rw [writeBytes_eq hlt hbuffer, hzero, if_pos (by omega)]
  exact hfirst

/-- The pattern is not taken for a program. -/
theorem not_clean_of_failed_read (h : Running s.memory) (hne : handle ≠ 0)
    (hbytes : answers.bytes = [])
    (hnew : State.lookup stale s.heap programName s.gELFBinaries = .ok none) :
    ¬ Clean depth devices xxh64 stale accessible programName handle answers b s := by
  rintro ⟨⟨binary, b', s'⟩, hruns, hnone⟩
  have hrun := hruns fun _ => 0
  cases binary with
  | none => exact not_unchanged_of_none h hne hrun (hnone rfl)
  | some elfBinary =>
    obtain ⟨buffer, s1, m, s2, haccepts⟩ := accepts_of_returns h hne hrun
    obtain ⟨-, hpos, -⟩ := buffer_grows h haccepts.block
    obtain ⟨-, hlt⟩ := buffer_lt h haccepts.block
    obtain ⟨⟨address, k⟩, -, hblock⟩ := bind_eq_ok.mp haccepts.block
    obtain ⟨_, -, hblock⟩ := bind_eq_ok.mp hblock
    cases hblock
    rcases haccepts.load with ⟨hfound, -, -⟩ | ⟨-, sa, programStart, sb, last, sc, -, hloads⟩
    · cases hnew.symm.trans hfound
    · -- the first byte of the pattern is not that of a program
      have hmod := alignSize_mod answers.fileSize
      obtain ⟨_, hcheck, -⟩ := bind_eq_ok.mp hloads.check
      have hmagic := (require_eq_ok.mp hcheck).1
      rw [fileContents_first hbytes (by omega) hlt] at hmagic
      exact absurd hmagic (by decide)

end Claim

section Example

/-- A volume that answers with -EINVAL as a size. -/
def invalidSize : Answers := ⟨2 ^ 64 - 22, [], by decide, Nat.zero_le _⟩

/-- A volume that gives the size of a file and then fails to read it. -/
def failedRead : Answers := ⟨0x1000, [], by decide, Nat.zero_le _⟩

/-- What the buffer of a page does to the trees of the example machine. -/
def bufferTrees : Except Enkel.Fault (List ℕ) := do
  let trees ← machineTrees 64
  let (v, p, trees) ← allocTrees 0x1000 trees
  let _ ← freeTrees ⟨v, p, 0x1000⟩ trees
  return [v, p]

/-- The binary is in the list, and there is a page for the buffer. -/
theorem exists_accepts : ∃ k s1 s3, Reachable k ∧
    Accepts 0 twoFiles (fun _ => 1) (fun _ => []) (fun _ => True) helloName failedRead (fun _ => 0)
      (runState k noFiles (helloHeap 0) [3] []) 0x40000000 s1 3
      (fileContents failedRead (fun _ => 0) 0x40000000) s1 s3 := by
  have htrees : bufferTrees = .ok [0x40000000, 0x40200000] := by decide +kernel
  unfold bufferTrees at htrees
  obtain ⟨k, hm, htrees⟩ := exists_machineRunning_of_bind 64 (by decide) htrees
  obtain ⟨⟨v, p, t1⟩, h1, htrees⟩ := bind_eq_ok.mp htrees
  obtain ⟨t2, h2, htrees⟩ := bind_eq_ok.mp htrees
  cases htrees
  have hk := hm.reachable.running.ok
  have hstart : TreeRun k k (k.physicalMemoryState, k.virtualMemoryState) [] 1534 :=
    ⟨AllocRun.start.inv hk hm.reachable.running.cr3, rfl, hm.pool⟩
  obtain ⟨k1, halloc, r1⟩ := hstart.virtualAlloc h1 (by decide) (by decide) (by decide) (by decide)
    (by decide) .user pageFlagsNone
  obtain ⟨k2, hfree, -⟩ := r1.virtualFree hk h2
  have hsize : alignSize failedRead.fileSize pageSize = 0x1000 := by decide
  refine ⟨k, runState k1 noFiles (helloHeap 0) [3] [], runState k2 noFiles (helloHeap 0) [3] [],
    hm.reachable, ?_, Or.inl ⟨rfl, rfl, rfl⟩, fun _ _ => trivial, fun _ _ => trivial, ?_⟩
  · rw [hsize]
    exact virtualAlloc_run halloc (by decide)
  · rw [hsize]
    exact virtualFree_run hfree

end Example

section Claim
variable (depth : ℕ) (devices : Devices) (xxh64 : List ℕ → ℕ) (stale : ℕ → Name)
  (accessible : ℕ × ℕ → Prop) [DecidablePred accessible] (programName : Name) (handle : ℕ)
  (answers : Answers) (b : ℕ → UInt8) (s : State)

end Claim

end Enkel.HandleLoads
