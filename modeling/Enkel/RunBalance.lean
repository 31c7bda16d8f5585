import Enkel.RunFiles

/-!
What RunProgram gives back. The stack, the buffers, the thread-local block and the binary
that runs are freed, and the file of the program is closed. The files of interpreters stay
open, and so does the block of a program that has one.
-/
namespace Enkel.ProgramRun

open Outcome Paging
open BinaryRegistry (Name)
open VolumeSystem.FileHandleMask (fileHandle)
open VolumeCalls (System Devices Volume Contents IsOpen)
open FileMapping (Fil maxFileHandles)

/-- The block of a binary: none that was taken in the run, or the one that UnloadElf
frees. -/
def Owned (s : State) (p : ℕ) (mine : List Allocation) : Prop :=
  mine = [] ∨ ∃ binary frame, s.heap p = some binary ∧ binary.refCount = 1 ∧
    mine = [⟨binary.baseAddress, frame, binary.allocatedSize⟩]

section Blocks
variable {s0 s s' : State} {out mine : List Allocation} {names : List Name}
  {path programName : Name} {handle p q depth : ℕ} {devices : Devices} {xxh64 : List ℕ → ℕ}
  {last last' : Name × ℕ} {stale : ℕ → Name} {parse : List UInt8 → Image} {image : Image}
  {fil : Fil} {sub : Option ℕ} {process : Process} {elfBinary : ElfBinary}

theorem Owned.congr (h : Owned s p mine) (hheap : s'.heap = s.heap) : Owned s' p mine := by
  unfold Owned at *
  rwa [hheap]

theorem Ledger.openHandle (h : Ledger s0 s out)
    (hdevice : ¬ OnVolume .device xxh64 s.system path)
    (hopen : s.openHandle 0 devices xxh64 path = .ok (handle, s')) : Ledger s0 s' out := by
  obtain ⟨s1, hmemory, hopens⟩ := openHandle_eq_ok hopen
  obtain ⟨object, hmalloc⟩ := hopens.malloc
  obtain ⟨opened, hvolume, -⟩ := hopens.volume
  refine (h.rpMalloc.of_eq_ok hmalloc).congr ?_ hopens.heapBlocks
  exact volumeOpenHandle_memory hvolume fun hon => hdevice (hon.congr hmemory.volumes.symm)

theorem Ledger.openInterpreters (h : Ledger s0 s out)
    (hdevice : ∀ path ∈ names, ¬ OnVolume .device xxh64 s.system path)
    (hopen : s.openInterpreters 0 devices xxh64 names last = .ok (some last', s')) :
    Ledger s0 s' out := by
  induction names generalizing s last with
  | nil =>
    cases hopen
    exact h
  | cons path names ih =>
    obtain ⟨handle, s1, hne, hfirst, hrest⟩ := openInterpreters_cons hopen
    have hvolumes := (openHandle_takes hfirst hne).volumes
    refine ih (h.openHandle (hdevice path List.mem_cons_self) hfirst) (fun path' hmem hon => ?_) hrest
    exact hdevice path' (List.mem_cons_of_mem _ hmem) (hon.congr hvolumes.symm)

/-- A binary that is loaded takes its block, or was there already. -/
theorem Ledger.loadElfFromMemory (h : Ledger s0 s out)
    (hdevice : ∀ path ∈ interpretersOf stale programName image s,
      ¬ OnVolume .device xxh64 s.system path)
    (hload : s.loadElfFromMemory 0 devices xxh64 stale programName image = .ok (some p, s')) :
    ∃ mine, Ledger s0 s' (mine ++ out) ∧ Owned s' p mine ∧
      (State.lookup stale s.heap programName s.gELFBinaries = .ok (some p) → mine = []) := by
  unfold interpretersOf at hdevice
  obtain ⟨hlookup, rfl⟩ | ⟨hlookup, s1, s2, s3, programStart, last, hloads⟩ :=
    loadElfFromMemory_eq_ok hload
  · exact ⟨[], h, Or.inl rfl, fun _ => rfl⟩
  · rw [hlookup] at hdevice
    have hbefore := (rpMalloc_memoryOnly.of_eq_ok hloads.malloc).trans
      (virtualAlloc_memoryOnly.of_eq_ok hloads.alloc)
    have h1 := h.rpMalloc.of_eq_ok hloads.malloc
    obtain ⟨frame, h2⟩ := (h1.virtualAlloc image.allocatedSize_lt).of_eq_ok hloads.alloc
    have h3 := h2.openInterpreters
      (fun path hmem hon => hdevice path hmem (hon.congr hbefore.volumes.symm)) hloads.interp
    obtain ⟨binary, hbinary, hbase, hsize, hcount, -⟩ := hloads.entered.binary
    refine ⟨[⟨programStart, frame, image.allocatedSize⟩],
      h3.congr (congrArg System.memory hloads.entered.system) hloads.entered.heapBlocks, ?_, ?_⟩
    · exact Or.inr ⟨binary, frame, hbinary, hcount, by rw [hbase, hsize]⟩
    · intro hfound
      cases hlookup.symm.trans hfound

/-- The buffer of the file is freed again. -/
theorem Ledger.loadsFile (h : Ledger s0 s out) (h0 : Running s0.memory) {s1 s2 : State} {buffer : ℕ}
    (hdevice : ∀ path ∈ interpretersOf stale programName (parse fil.contents) s,
      ¬ OnVolume .device xxh64 s.system path)
    (hsteps : LoadsFile devices xxh64 parse stale programName 0 p fil s s1 s2 s' buffer) :
    ∃ mine, Ledger s0 s' (mine ++ out) ∧ Owned s' p mine ∧
      (State.lookup stale s.heap programName s.gELFBinaries = .ok (some p) → mine = []) := by
  have halloc := virtualAlloc_memoryOnly.of_eq_ok hsteps.alloc
  have hfree := virtualFree_memoryOnly.of_eq_ok hsteps.free
  obtain ⟨frame, h1⟩ := (h.virtualAlloc (alignSize_lt _)).of_eq_ok hsteps.alloc
  rw [← interpretersOf_congr halloc.heap halloc.gELFBinaries] at hdevice
  obtain ⟨mine, h2, howned, hmine⟩ := h1.loadElfFromMemory
    (fun path hmem hon => hdevice path hmem (hon.congr halloc.volumes.symm)) hsteps.load
  refine ⟨mine, ?_, howned.congr hfree.heap, fun hlookup => hmine ?_⟩
  · exact ((h2.perm List.perm_middle).virtualFree h0).of_eq_ok hsteps.free
  · rwa [halloc.heap, halloc.gELFBinaries]

theorem Ledger.loadElf (h : Ledger s0 s out) (h0 : Running s0.memory) (hrunning : Running s.memory)
    (hstreams : s.system.implementation 0 = some .standardIo) {file : Contents}
    (hload : s.loadElf 0 devices xxh64 parse stale programName = .ok (some p, s'))
    (hloaded : Loaded devices xxh64 parse stale programName p file s s')
    (hnil : interpretersOf stale programName (parse file.val) s = []) :
    ∃ mine, Ledger s0 s' (mine ++ out) ∧ Owned s' p mine ∧
      (State.lookup stale s.heap programName s.gELFBinaries = .ok (some p) → mine = []) := by
  obtain ⟨handle, s1, s2, hopen, hne, hfrom, hclose, hheap, -, hblocks⟩ := loadElf_eq_ok hload
  have hrunning1 := ((State.openHandle_grows hrunning).of_eq_ok hopen).running
  obtain ⟨fil, hisopen, sa, sb, buffer, hsteps⟩ := loadElfFromHandle_eq_ok hrunning1 hne hfrom
  obtain ⟨sm, slot, file', hmemory, hopens, hslot, hfound, hcontents⟩ :=
    openHandle_opens hstreams hopen hne hisopen
  obtain rfl := Option.some.inj (hfound.symm.trans hloaded.found)
  obtain ⟨object, hmalloc⟩ := hopens.malloc
  have h1 : Ledger s0 s1 out := by
    refine (h.rpMalloc.of_eq_ok hmalloc).congr ?_ hopens.heapBlocks
    obtain ⟨fil', -, hsystem⟩ := hslot.opened
    change s1.system.memory = sm.system.memory
    rw [hsystem]
  have hfirst : interpretersOf stale programName (parse fil.contents) s1 = [] := by
    rw [hcontents, interpretersOf_congr hopens.heap hopens.gELFBinaries, hnil]
  have hdevice : ∀ path ∈ interpretersOf stale programName (parse fil.contents) s1,
      ¬ OnVolume .device xxh64 s1.system path := by
    rw [hfirst]
    exact fun path hmem => absurd hmem List.not_mem_nil
  obtain ⟨mine, h2, howned, hmine⟩ := h1.loadsFile h0 hdevice hsteps
  have hfat : s2.system.implementation handle = some .fat := by
    have hgrows := ((State.loadElfFromHandle_grows hrunning1 hne).of_eq_ok hfrom).1
    exact (implementation_congr hgrows.volumes _).trans hisopen.volume
  refine ⟨mine, h2.congr ?_ hblocks, howned.congr hheap, fun hlookup => hmine ?_⟩
  · change s'.system.memory = s2.system.memory
    rw [volumeCloseHandle_file hfat hisopen.inRange] at hclose
    rw [← Except.ok.inj hclose]
  · rwa [hopens.heap, hopens.gELFBinaries]

/-- Loading the interpreter of a program that was in the list. -/
theorem Ledger.loadInterpreter (h : Ledger s0 s out) (h0 : Running s0.memory)
    (hrunning : Running s.memory)
    (hdevice : ∀ path ∈ reopens parse stale p s, ¬ OnVolume .device xxh64 s.system path)
    (hload : s.loadInterpreter 0 devices xxh64 parse stale p = .ok ((q, sub), s')) :
    (q = p ∧ s' = s) ∨ ∃ mine, Ledger s0 s' (mine ++ out) ∧ Owned s' q mine := by
  obtain ⟨binary, hbinary, ⟨-, rfl, rfl⟩ | ⟨hne, hload⟩⟩ := loadInterpreter_eq_ok hload
  · exact Or.inl ⟨rfl, rfl⟩
  · obtain ⟨fil, hopen, s1, s2, buffer, hsteps⟩ := loadElfFromHandle_eq_ok hrunning hne hload
    simp only [reopens, hbinary, if_neg hne, hopen.opened] at hdevice
    obtain ⟨mine, h1, howned, -⟩ := h.loadsFile h0 hdevice hsteps
    exact Or.inr ⟨mine, h1, howned⟩

theorem Ledger.createUserModeTLS (h : Ledger s0 s out) :
    Meets (fun _ => True)
      (fun r => ∃ frame, Ledger s0 r.2 (⟨r.1.memory, frame, r.1.size⟩ :: out))
      (s.createUserModeTLS 0 elfBinary) := by
  refine meets_bind h.rpMalloc fun r1 h1 => ?_
  have hlt : (ThreadLocal.tlsSizes elfBinary.tlsDataSize elfBinary.tbssSize
      elfBinary.tlsAlign).tlsAllocationSize < 2 ^ 64 := Nat.mod_lt _ (Nat.two_pow_pos 64)
  exact meets_bind (h1.virtualAlloc hlt) fun r2 h2 => meets_pure h2

/-- What the process has when it starts, if no interpreter has been opened for it. -/
theorem Creates.ledger {s1 s2 s3 s4 : State}
    (h : Creates devices xxh64 parse stale programName 0 p process elfBinary s s1 s2 s3 s4 s')
    (hrunning : Running s.memory) (hstreams : s.system.implementation 0 = some .standardIo)
    (hfat : ∀ path ∈ opensInterpreters devices xxh64 parse stale programName s,
      ¬ OnVolume .fat xxh64 s.system path)
    (hdevice : ∀ path ∈ opensInterpreters devices xxh64 parse stale programName s,
      ¬ OnVolume .device xxh64 s.system path) :
    ∃ mine frame frame', Owned s' process.binary mine ∧
      Ledger s s' (⟨process.tls.memory, frame, process.tls.size⟩ :: (mine ++
        [⟨process.defaultThreadStackBase, frame', defaultThreadStackSize⟩])) := by
  obtain ⟨object, hmalloc⟩ := h.malloc
  obtain ⟨frame', h2⟩ := (((Ledger.start hrunning).rpMalloc.of_eq_ok hmalloc).virtualAlloc
    (by decide)).of_eq_ok h.stack
  obtain ⟨hrunning2, hrunning3⟩ := h.running hrunning
  obtain ⟨file, hloaded⟩ := h.loaded hrunning hstreams
  have hstart := h.memoryOnly
  have hstreams2 := (hstart.implementation 0).trans hstreams
  have hvolumes := hloaded.takes.volumes.trans hstart.volumes
  -- the binary that runs, with its block
  have hrest : ∃ mine, Ledger s s4 (mine ++
      [⟨process.defaultThreadStackBase, frame', defaultThreadStackSize⟩]) ∧
      Owned s4 process.binary mine := by
    rcases h.cases hrunning hloaded with ⟨hlookup, hopens⟩ |
      ⟨hnil, -, binary, hbinary, hzero⟩ | ⟨-, path, hmem, hon⟩
    · have hnil : interpretersOf stale programName (parse file.val) s2 = [] := by
        simp only [interpretersOf, hlookup]
      obtain ⟨mine, h3, howned, hmine⟩ := h2.loadElf hrunning hrunning2 hstreams2 h.load hloaded hnil
      obtain rfl := hmine hlookup
      rw [hopens] at hdevice
      rcases h3.loadInterpreter hrunning hrunning3 (fun path hmem hon => hdevice path hmem
        (hon.congr hvolumes.symm)) h.interpreter with ⟨hbinary, hsame⟩ | hloads
      · rw [hbinary, hsame]
        exact ⟨[], h3, howned⟩
      · exact hloads
    · obtain ⟨mine, h3, howned, -⟩ := h2.loadElf hrunning hrunning2 hstreams2 h.load hloaded hnil
      obtain ⟨binary', hbinary', ⟨-, hsame, hsame'⟩ | ⟨hne, -⟩⟩ := loadInterpreter_eq_ok h.interpreter
      · rw [hsame, hsame']
        exact ⟨mine, h3, howned⟩
      · cases hbinary.symm.trans hbinary'
        exact absurd hzero hne
    · exact absurd hon (hfat path hmem)
  obtain ⟨mine, h4, howned⟩ := hrest
  obtain ⟨frame, h5⟩ := h4.createUserModeTLS.of_eq_ok h.tls
  exact ⟨mine, frame, frame', howned.congr (createUserModeTLS_memoryOnly.of_eq_ok h.tls).heap, h5⟩

/-- UnloadElf gives up one reference, and with the last the binary and its block. -/
theorem unloadElf_eq_ok (h : s.unloadElf depth p = .ok s') :
    ∃ binary, s.heap p = some binary ∧
      ((sub64 binary.refCount 1 = 0 ∧ ∃ s1,
          s.virtualFree depth binary.baseAddress binary.allocatedSize = .ok s1 ∧
          s' = { s1 with heap := Function.update s1.heap p none }) ∨
        (sub64 binary.refCount 1 ≠ 0 ∧ s' = { s with
          heap := Function.update s.heap p
            (some { binary with refCount := sub64 binary.refCount 1 }) })) := by
  unfold State.unloadElf at h
  cases hbinary : s.heap p with
  | none =>
    rw [hbinary] at h
    cases h
  | some binary =>
    rw [hbinary] at h
    refine ⟨binary, rfl, ?_⟩
    dsimp only at h
    split_ifs at h with hlast
    · obtain ⟨s1, hfree, h⟩ := bind_eq_ok.mp h
      cases h
      exact Or.inl ⟨hlast, s1, hfree, rfl⟩
    · cases h
      exact Or.inr ⟨hlast, rfl⟩

/-- Only the binary that runs is given up. -/
theorem Ledger.unloadElf (h : Ledger s0 s mine) (h0 : Running s0.memory) (howned : Owned s p mine)
    (hunload : s.unloadElf 0 p = .ok s') : PagesBack s0 s' := by
  obtain ⟨binary, hbinary, ⟨-, s1, hfree, rfl⟩ | ⟨hleft, rfl⟩⟩ := unloadElf_eq_ok hunload
  · rcases howned with rfl | ⟨binary', frame, hbinary', -, rfl⟩
    · have hback : PagesBack s0 s1 := h.pagesBack_of_free hfree
      exact hback
    · cases hbinary.symm.trans hbinary'
      have hback : PagesBack s0 s1 := ((h.virtualFree h0).of_eq_ok hfree).pagesBack
      exact hback
  · rcases howned with rfl | ⟨binary', frame, hbinary', hcount, rfl⟩
    · exact h.pagesBack
    · cases hbinary.symm.trans hbinary'
      rw [hcount] at hleft
      exact absurd (by decide) hleft

theorem Ledger.destroyProcess (h0 : Running s0.memory) (howned : Owned s process.binary mine)
    {frame frame' : ℕ}
    (h : Ledger s0 s (⟨process.tls.memory, frame, process.tls.size⟩ :: (mine ++
      [⟨process.defaultThreadStackBase, frame', defaultThreadStackSize⟩])))
    (hdestroy : s.destroyProcess 0 process = .ok s') : PagesBack s0 s' := by
  obtain ⟨s1, hstack, hdestroy⟩ := bind_eq_ok.mp hdestroy
  obtain ⟨s2, htls, hunload⟩ := bind_eq_ok.mp hdestroy
  have h1 := ((h.perm (List.perm_append_singleton _ (_ :: mine))).virtualFree h0).of_eq_ok hstack
  have h2 := (h1.virtualFree h0).of_eq_ok htls
  have hheap := (virtualFree_memoryOnly.of_eq_ok hstack).trans
    (virtualFree_memoryOnly.of_eq_ok htls)
  exact h2.unloadElf h0 (howned.congr hheap.heap) hunload

end Blocks

/-- RunProgram gives back what it takes: the pages, and the entries of FileHandles. -/
structure Balanced (s s' : State) : Prop where
  pages : PagesBack s s'
  fileHandles : ∀ i, s'.system.fileHandles i = none ↔ s.system.fileHandles i = none

section Files
variable {s s1 s' : State} {programName : Name} {depth p : ℕ} {devices : Devices}
  {xxh64 : List ℕ → ℕ} {stale : ℕ → Name} {parse : List UInt8 → Image} {process : Process}

/-- DestroyProcess closes no file. -/
theorem destroyProcess_files (hdestroy : s.destroyProcess depth process = .ok s') :
    s'.system.fileHandles = s.system.fileHandles := by
  obtain ⟨s1, hstack, hdestroy⟩ := bind_eq_ok.mp hdestroy
  obtain ⟨s2, htls, hunload⟩ := bind_eq_ok.mp hdestroy
  have hmemory := (virtualFree_memoryOnly.of_eq_ok hstack).trans
    (virtualFree_memoryOnly.of_eq_ok htls)
  refine Eq.trans ?_ hmemory.files
  obtain ⟨binary, -, ⟨-, s3, hfree, rfl⟩ | ⟨-, rfl⟩⟩ := unloadElf_eq_ok hunload
  · exact (virtualFree_memoryOnly.of_eq_ok hfree).files
  · rfl

/-- A start that opens an interpreter takes an entry for good, whether or not a list of
free pages is refilled. -/
theorem exists_leaked_file (hrunning : Running s.memory)
    (hstreams : s.system.implementation 0 = some .standardIo)
    (hcreate : s.createProcess depth devices xxh64 parse stale programName = .ok (some process, s1))
    (hdestroy : s1.destroyProcess depth process = .ok s') :
    (∃ i, s.system.fileHandles i = none ∧ s'.system.fileHandles i ≠ none) ↔
      ∃ path ∈ opensInterpreters devices xxh64 parse stale programName s,
        OnVolume .fat xxh64 s.system path := by
  obtain ⟨p, elfBinary, t1, t2, t3, t4, hcreates⟩ := createProcess_eq_ok hcreate
  rw [destroyProcess_files hdestroy]
  exact (hcreates.takes hrunning hstreams).taken

end Files

section Example

def bootVolumes : VolumeSystem.VolumeIndices Volume := fun page index =>
  if page = 0 ∧ index = 0 then ⟨2, some .standardIo, 0⟩
  else if page = 1 ∧ index = 0 then ⟨1, some .fat, 0⟩
  else ⟨0, none, 0⟩

def helloName : Name := [0x2F, 0x78]
def linkerName : Name := [0x2F, 0x69]

def helloFile : Contents := ⟨[1], by decide⟩
def linkerFile : Contents := ⟨[2], by decide⟩

/-- A disk with a program and its interpreter. -/
def twoFiles : Devices :=
  { VolumeCalls.noDevices with
    fOpen := fun path =>
      if path = 0x2F :: helloName then some helloFile
      else if path = 0x2F :: linkerName then some linkerFile
      else none }

def parseTwo (bytes : List UInt8) : Image :=
  { failure := none
    allocatedSize := 0x4001000
    interp := if bytes = helloFile.val then [linkerName] else []
    tlsDataSize := 0
    tbssSize := 0
    tlsAlign := 1
    allocatedSize_lt := by decide }

def openFil (file : Contents) : Fil :=
  ⟨file.val, 0, VolumeCalls.contents_lt file, VolumeCalls.zero_le_contents file⟩

/-- rpmalloc has the memory for these objects. -/
def runState (k : KernelMemory) (fileHandles : FileMapping.FileHandles)
    (heap : ℕ → Option ElfBinary) (gELFBinaries objects : List ℕ) : State :=
  { system :=
      { volumeIndices := bootVolumes
        fileHandles := fileHandles
        memory := k
        frameBufferMemory := 0
        frameBufferByteSize := 0 }
    heap := heap
    gELFBinaries := gELFBinaries
    grants := objects.map fun object => ⟨object, [], no_sizes⟩
    heapBlocks := [] }

section Steps
variable {k k' : KernelMemory} {files : FileMapping.FileHandles} {heap : ℕ → Option ElfBinary}
  {list objects : List ℕ} {object address byteSize slot handle : ℕ} {file : Contents}

theorem rpMalloc_run : (runState k files heap list (object :: objects)).rpMalloc 0 =
    .ok (object, runState k files heap list objects) := State.rpMalloc_eq rfl

theorem virtualAlloc_run (h : k.virtualAlloc 0 byteSize .user pageFlagsNone = .ok (address, k'))
    (hne : address ≠ 0) : (runState k files heap list objects).virtualAlloc 0 byteSize =
      .ok (address, runState k' files heap list objects) := State.virtualAlloc_eq hne h

theorem virtualFree_run (h : k.virtualFree 0 address byteSize = .ok k') :
    (runState k files heap list objects).virtualFree 0 address byteSize =
      .ok (runState k' files heap list objects) :=
  bind_eq_ok.mpr ⟨k', mapError_eq_ok.mpr h, rfl⟩

/-- A path to the volume of FAT. -/
theorem openHandle_run {path : Name} {volumeHandle : ℕ}
    (hbreak : VolumeSystem.breakPath (fun _ => 1) bootVolumes path = .ok (volumeHandle, 0))
    (hfat : (runState k files heap list objects).system.implementation volumeHandle = some .fat)
    (hlength : (VolumeSystem.slash :: path).length < 256)
    (hslot : VolumeCalls.freeSlot files = some slot)
    (hfile : twoFiles.fOpen (VolumeSystem.slash :: path) = some file) :
    (runState k files heap list (object :: objects)).openHandle 0 twoFiles (fun _ => 1) path =
      .ok (VolumeSystem.FileHandleMask.setFileHandle slot volumeHandle,
        runState k (Function.update files slot (some (openFil file))) heap list objects) := by
  have hopen : (runState k files heap list objects).system.volumeOpenHandle 0 twoFiles
      (fun _ => 1) 0 path = .ok (_, _) := volumeOpenHandle_file hbreak hfat hlength hslot hfile
  exact bind_eq_ok.mpr ⟨_, rpMalloc_run, bind_eq_ok.mpr ⟨_, mapError_eq_ok.mpr hopen, rfl⟩⟩

theorem isOpen_run {fil : Fil}
    (hfat : (runState k files heap list objects).system.implementation handle = some .fat)
    (hslot : fileHandle handle < maxFileHandles) (hfile : files (fileHandle handle) = some fil) :
    IsOpen (runState k files heap list objects).system handle fil :=
  ⟨hfat, hslot, hfile⟩

/-- The binary that LoadElfFromMemory enters. -/
def newBinary (programName : Name) (programStart : ℕ) (image : Image) (last : Name × ℕ) :
    ElfBinary :=
  { name := programName
    baseAddress := programStart
    allocatedSize := image.allocatedSize
    refCount := 1
    interpreterName := last.1
    interpreterFileHandle := last.2
    tlsDataSize := image.tlsDataSize
    tbssSize := image.tbssSize
    tlsAlign := image.tlsAlign % 2 ^ 16 }

/-- A binary that is not in the list is loaded and entered. -/
theorem loadElfFromMemory_run {image : Image} {programName : Name} {k2 : KernelMemory}
    {files2 : FileMapping.FileHandles} {last : Name × ℕ} {objects2 : List ℕ}
    (hlookup : State.lookup (fun _ => []) heap programName list = .ok none)
    (hfresh : heap object = none) (himage : image.failure = none)
    (halloc : k.virtualAlloc 0 image.allocatedSize .user pageFlagsNone = .ok (address, k2))
    (hne : address ≠ 0)
    (hopen : (runState k2 files heap list objects).openInterpreters 0 twoFiles (fun _ => 1)
      image.interp ([], 0) = .ok (some last, runState k2 files2 heap list objects2))
    (hslots : list.length < BinaryRegistry.slots) :
    (runState k files heap list (object :: objects)).loadElfFromMemory 0 twoFiles (fun _ => 1)
      (fun _ => []) programName image = .ok (some object, runState k2 files2
        (Function.update heap object (some (newBinary programName address image last)))
        (list ++ [object]) objects2) := by
  refine bind_eq_ok.mpr ⟨none, hlookup, bind_eq_ok.mpr ⟨_, rpMalloc_run,
    bind_eq_ok.mpr ⟨_, require_true hfresh, ?_⟩⟩⟩
  rw [himage]
  exact bind_eq_ok.mpr ⟨_, virtualAlloc_run halloc hne, bind_eq_ok.mpr ⟨_, hopen,
    bind_eq_ok.mpr ⟨_, require_true hslots, rfl⟩⟩⟩

end Steps

/-- The memory of a run of the program, with its interpreter. -/
structure RunMemory (k : ℕ → KernelMemory) : Prop where
  stack : (k 0).virtualAlloc 0 defaultThreadStackSize .user pageFlagsNone = .ok (0x40000000, k 1)
  buffer : (k 1).virtualAlloc 0 0x1000 .user pageFlagsNone = .ok (0x40020000, k 2)
  image : (k 2).virtualAlloc 0 0x4001000 .user pageFlagsNone = .ok (0x40021000, k 3)
  bufferFree : (k 3).virtualFree 0 0x40020000 0x1000 = .ok (k 4)
  linkerBuffer : (k 4).virtualAlloc 0 0x1000 .user pageFlagsNone = .ok (0x40020000, k 5)
  linkerImage : (k 5).virtualAlloc 0 0x4001000 .user pageFlagsNone = .ok (0x44022000, k 6)
  linkerBufferFree : (k 6).virtualFree 0 0x40020000 0x1000 = .ok (k 7)
  tls : (k 7).virtualAlloc 0 0x2000 .user pageFlagsNone = .ok (0x48023000, k 8)
  stackFree : (k 8).virtualFree 0 0x40000000 defaultThreadStackSize = .ok (k 9)
  tlsFree : (k 9).virtualFree 0 0x48023000 0x2000 = .ok (k 10)
  linkerFree : (k 10).virtualFree 0 0x44022000 0x4001000 = .ok (k 11)

theorem exists_fatVolume : ∃ volumeHandle,
    (VolumeSystem.getVolumeIndex bootVolumes volumeHandle).volumeImplementation = some .fat ∧
      VolumeSystem.breakPath (fun _ => 1) bootVolumes helloName = .ok (volumeHandle, 0) ∧
      VolumeSystem.breakPath (fun _ => 1) bootVolumes linkerName = .ok (volumeHandle, 0) :=
  ⟨VolumeCalls.lettersHandle, by decide, rfl, rfl⟩

def noFiles : FileMapping.FileHandles := fun _ => none

def noBinaries : ℕ → Option ElfBinary := fun _ => none

def runStart (k : KernelMemory) : State := runState k noFiles noBinaries [] [1, 2, 3, 4, 5, 6]

section Run
variable {k : ℕ → KernelMemory} {h1 h2 : ℕ}

def helloFiles : FileMapping.FileHandles := Function.update noFiles 0 (some (openFil helloFile))

def bothFiles : FileMapping.FileHandles := Function.update helloFiles 1 (some (openFil linkerFile))

/-- The program, with the handle of its interpreter. -/
def helloBinary (handle : ℕ) : ElfBinary :=
  newBinary helloName 0x40021000 (parseTwo helloFile.val) (linkerName, handle)

def helloHeap (handle : ℕ) : ℕ → Option ElfBinary :=
  Function.update noBinaries 3 (some (helloBinary handle))

theorem RunMemory.loadHello (h : RunMemory k)
    (hopen : IsOpen (runState (k 1) helloFiles noBinaries [] [3, 4, 5, 6]).system h1
      (openFil helloFile)) (hne1 : h1 ≠ 0) (hne2 : h2 ≠ 0)
    (hlinker : (runState (k 3) helloFiles noBinaries [] [4, 5, 6]).openHandle 0 twoFiles
      (fun _ => 1) linkerName = .ok (h2, runState (k 3) bothFiles noBinaries [] [5, 6])) :
    (runState (k 1) helloFiles noBinaries [] [3, 4, 5, 6]).loadElfFromHandle 0 twoFiles
      (fun _ => 1) parseTwo (fun _ => []) helloName h1 =
        .ok (some 3, runState (k 4) bothFiles (helloHeap h2) [3] [5, 6]) := by
  have hsize : alignSize (openFil helloFile).fSize pageSize = 0x1000 := by decide
  have hinterp : (runState (k 3) helloFiles noBinaries [] [4, 5, 6]).openInterpreters 0 twoFiles
      (fun _ => 1) (parseTwo helloFile.val).interp ([], 0) =
        .ok (some (linkerName, h2), runState (k 3) bothFiles noBinaries [] [5, 6]) := by
    refine bind_eq_ok.mpr ⟨_, hlinker, ?_⟩
    dsimp only
    rw [if_neg hne2]
    rfl
  have hsteps : LoadsFile twoFiles (fun _ => 1) parseTwo (fun _ => []) helloName 0 3
      (openFil helloFile) (runState (k 1) helloFiles noBinaries [] [3, 4, 5, 6])
      (runState (k 2) helloFiles noBinaries [] [3, 4, 5, 6])
      (runState (k 3) bothFiles (helloHeap h2) [3] [5, 6])
      (runState (k 4) bothFiles (helloHeap h2) [3] [5, 6]) 0x40020000 := by
    constructor
    · rw [hsize]
      exact virtualAlloc_run h.buffer (by decide)
    · exact loadElfFromMemory_run rfl rfl rfl h.image (by decide) hinterp (by decide)
    · rw [hsize]
      exact virtualFree_run h.bufferFree
  exact hsteps.eq_ok hopen hne1

def linkerBinary : ElfBinary := newBinary linkerName 0x44022000 (parseTwo linkerFile.val) ([], 0)

def bothHeap (handle : ℕ) : ℕ → Option ElfBinary :=
  Function.update (helloHeap handle) 5 (some linkerBinary)

/-- FileHandles once the file of the program is closed. -/
def linkerFiles : FileMapping.FileHandles := Function.update bothFiles 0 none

theorem RunMemory.loadLinker (h : RunMemory k)
    (hopen : IsOpen (runState (k 4) linkerFiles (helloHeap h2) [3] [5, 6]).system h2
      (openFil linkerFile)) (hne2 : h2 ≠ 0) :
    (runState (k 4) linkerFiles (helloHeap h2) [3] [5, 6]).loadElfFromHandle 0 twoFiles
      (fun _ => 1) parseTwo (fun _ => []) linkerName h2 =
        .ok (some 5, runState (k 7) linkerFiles (bothHeap h2) [3, 5] [6]) := by
  have hsize : alignSize (openFil linkerFile).fSize pageSize = 0x1000 := by decide
  have hsteps : LoadsFile twoFiles (fun _ => 1) parseTwo (fun _ => []) linkerName 0 5
      (openFil linkerFile) (runState (k 4) linkerFiles (helloHeap h2) [3] [5, 6])
      (runState (k 5) linkerFiles (helloHeap h2) [3] [5, 6])
      (runState (k 6) linkerFiles (bothHeap h2) [3, 5] [6])
      (runState (k 7) linkerFiles (bothHeap h2) [3, 5] [6]) 0x40020000 := by
    constructor
    · rw [hsize]
      exact virtualAlloc_run h.linkerBuffer (by decide)
    · exact loadElfFromMemory_run rfl rfl rfl h.linkerImage (by decide) rfl (by decide)
    · rw [hsize]
      exact virtualFree_run h.linkerBufferFree
  exact hsteps.eq_ok hopen hne2

def runProcess : Process :=
  { defaultThreadStackBase := 0x40000000
    tls := ⟨0x48023000, 0x2000, 0x48024000⟩
    binary := 5
    subBinary := some 3 }

def runCreated (k : KernelMemory) (handle : ℕ) : State :=
  runState k linkerFiles (bothHeap handle) [3, 5] []

/-- CreateProcess for the program. -/
theorem RunMemory.create (h : RunMemory k) : ∃ handle,
    (runStart (k 0)).createProcess 0 twoFiles (fun _ => 1) parseTwo (fun _ => []) helloName =
      .ok (some runProcess, runCreated (k 8) handle) := by
  obtain ⟨vh, hfat, hhello, hlinker⟩ := exists_fatVolume
  have himpl : ∀ slot, (VolumeSystem.getVolumeIndex bootVolumes
      (VolumeSystem.FileHandleMask.setFileHandle slot vh)).volumeImplementation = some .fat :=
    fun slot => (implementation_setFileHandle (s := (runStart (k 0)).system)).trans hfat
  have hne : ∀ slot, VolumeSystem.FileHandleMask.setFileHandle slot vh ≠ 0 := fun slot hzero => by
    have hboth := himpl slot
    rw [hzero] at hboth
    exact absurd hboth (by decide)
  have hslot0 := FatHandles.fileHandle_setFileHandle (show 0 < maxFileHandles by decide) vh
  have hslot1 := FatHandles.fileHandle_setFileHandle (show 1 < maxFileHandles by decide) vh
  have hopen1 : (runState (k 1) noFiles noBinaries [] [2, 3, 4, 5, 6]).openHandle 0 twoFiles
      (fun _ => 1) helloName = .ok (VolumeSystem.FileHandleMask.setFileHandle 0 vh,
        runState (k 1) helloFiles noBinaries [] [3, 4, 5, 6]) :=
    openHandle_run hhello hfat (by decide) (by decide +kernel) rfl
  have hopen2 : (runState (k 3) helloFiles noBinaries [] [4, 5, 6]).openHandle 0 twoFiles
      (fun _ => 1) linkerName = .ok (VolumeSystem.FileHandleMask.setFileHandle 1 vh,
        runState (k 3) bothFiles noBinaries [] [5, 6]) :=
    openHandle_run hlinker hfat (by decide) (by decide +kernel) rfl
  have hisopen1 : IsOpen (runState (k 1) helloFiles noBinaries [] [3, 4, 5, 6]).system _
      (openFil helloFile) :=
    isOpen_run (himpl 0) (by rw [hslot0]; decide) (by rw [hslot0]; rfl)
  have hisopen2 : IsOpen (runState (k 4) linkerFiles
      (helloHeap (VolumeSystem.FileHandleMask.setFileHandle 1 vh)) [3] [5, 6]).system _
      (openFil linkerFile) :=
    isOpen_run (himpl 1) (by rw [hslot1]; decide) (by rw [hslot1]; rfl)
  have hne1 := hne 0
  have hne2 := hne 1
  have hfirst := h.loadHello hisopen1 hne1 hne2 hopen2
  have hsecond := h.loadLinker hisopen2 hne2
  generalize VolumeSystem.FileHandleMask.setFileHandle 0 vh = h1 at *
  generalize VolumeSystem.FileHandleMask.setFileHandle 1 vh = h2 at *
  have hclose : (runState (k 4) bothFiles (helloHeap h2) [3] [5, 6]).system.volumeCloseHandle 0 h1 =
      .ok (runState (k 4) linkerFiles (helloHeap h2) [3] [5, 6]).system := by
    have hfat1 : (runState (k 4) bothFiles (helloHeap h2) [3] [5, 6]).system.implementation h1 =
        some .fat := hisopen1.volume
    rw [volumeCloseHandle_file hfat1 hisopen1.inRange, hslot0]
    rfl
  have hload : (runState (k 1) noFiles noBinaries [] [2, 3, 4, 5, 6]).loadElf 0 twoFiles (fun _ => 1)
      parseTwo (fun _ => []) helloName =
        .ok (some 3, runState (k 4) linkerFiles (helloHeap h2) [3] [5, 6]) := by
    refine bind_eq_ok.mpr ⟨_, hopen1, ?_⟩
    dsimp only
    rw [if_pos hne1]
    exact bind_eq_ok.mpr ⟨_, hfirst, bind_eq_ok.mpr ⟨_, mapError_eq_ok.mpr hclose, rfl⟩⟩
  have hinterpreter : (runState (k 4) linkerFiles (helloHeap h2) [3] [5, 6]).loadInterpreter 0
      twoFiles (fun _ => 1) parseTwo (fun _ => []) 3 =
        .ok ((5, some 3), runState (k 7) linkerFiles (bothHeap h2) [3, 5] [6]) := by
    have hheap : (runState (k 4) linkerFiles (helloHeap h2) [3] [5, 6]).heap 3 =
        some (helloBinary h2) := rfl
    have hhandle : (helloBinary h2).interpreterFileHandle = h2 := rfl
    have hname : (helloBinary h2).interpreterName = linkerName := rfl
    unfold State.loadInterpreter
    rw [hheap]
    dsimp only
    rw [hhandle, hname, if_neg hne2]
    exact bind_eq_ok.mpr ⟨_, hsecond, rfl⟩
  have htls : (runState (k 7) linkerFiles (bothHeap h2) [3, 5] [6]).createUserModeTLS 0
      linkerBinary = .ok (runProcess.tls, runCreated (k 8) h2) := by
    have hsize : (ThreadLocal.tlsSizes linkerBinary.tlsDataSize linkerBinary.tbssSize
        linkerBinary.tlsAlign).tlsAllocationSize = 0x2000 := by decide
    have hbase : add64 0x48023000 (ThreadLocal.tlsSizes linkerBinary.tlsDataSize
        linkerBinary.tbssSize linkerBinary.tlsAlign).alignedSize = 0x48024000 := by decide
    refine bind_eq_ok.mpr ⟨_, rpMalloc_run, ?_⟩
    dsimp only
    rw [hsize]
    refine bind_eq_ok.mpr ⟨_, virtualAlloc_run h.tls (by decide), ?_⟩
    dsimp only
    rw [hbase]
    rfl
  refine ⟨h2, bind_eq_ok.mpr ⟨_, rpMalloc_run, bind_eq_ok.mpr ⟨_, virtualAlloc_run h.stack (by decide),
    bind_eq_ok.mpr ⟨_, hload, bind_eq_ok.mpr ⟨_, hinterpreter, ?_⟩⟩⟩⟩⟩
  exact bind_eq_ok.mpr ⟨_, htls, rfl⟩

theorem RunMemory.destroy (h : RunMemory k) (handle : ℕ) :
    ∃ s', (runCreated (k 8) handle).destroyProcess 0 runProcess = .ok s' := by
  have hheap : (runState (k 10) linkerFiles (bothHeap handle) [3, 5] []).heap 5 =
      some linkerBinary := rfl
  have hlast : sub64 linkerBinary.refCount 1 = 0 := by decide
  obtain ⟨s', hunload⟩ : ∃ s', (runState (k 10) linkerFiles (bothHeap handle) [3, 5] []).unloadElf
      0 5 = .ok s' := by
    unfold State.unloadElf
    rw [hheap]
    dsimp only
    rw [if_pos hlast]
    exact ⟨_, bind_eq_ok.mpr ⟨_, virtualFree_run h.linkerFree, rfl⟩⟩
  exact ⟨s', bind_eq_ok.mpr ⟨_, virtualFree_run h.stackFree, bind_eq_ok.mpr ⟨_,
    virtualFree_run h.tlsFree, hunload⟩⟩⟩

end Run

/-- What the run does to the trees of the example machine. -/
def runTrees : Except Enkel.Fault (List ℕ) := do
  let trees ← machineTrees 0x10000
  let (v1, p1, trees) ← allocTrees defaultThreadStackSize trees
  let (v2, p2, trees) ← allocTrees 0x1000 trees
  let (v3, p3, trees) ← allocTrees 0x4001000 trees
  let trees ← freeTrees ⟨v2, p2, 0x1000⟩ trees
  let (v4, p4, trees) ← allocTrees 0x1000 trees
  let (v5, p5, trees) ← allocTrees 0x4001000 trees
  let trees ← freeTrees ⟨v4, p4, 0x1000⟩ trees
  let (v6, p6, trees) ← allocTrees 0x2000 trees
  let trees ← freeTrees ⟨v1, p1, defaultThreadStackSize⟩ trees
  let trees ← freeTrees ⟨v6, p6, 0x2000⟩ trees
  let _ ← freeTrees ⟨v5, p5, 0x4001000⟩ trees
  return [v1, p1, v2, p2, v3, p3, v4, p4, v5, p5, v6, p6]

theorem exists_runMemory : ∃ k : ℕ → KernelMemory, Reachable (k 0) ∧ RunMemory k := by
  have htrees : runTrees = .ok [0x40000000, 0x40200000, 0x40020000, 0x40220000, 0x40021000,
      0x40221000, 0x40020000, 0x40220000, 0x44022000, 0x44222000, 0x48023000, 0x48223000] := by
    decide +kernel
  unfold runTrees at htrees
  obtain ⟨k0, hm, htrees⟩ := exists_machineRunning_of_bind 0x10000 (by decide) htrees
  obtain ⟨⟨v1, p1, t1⟩, h1, htrees⟩ := bind_eq_ok.mp htrees
  obtain ⟨⟨v2, p2, t2⟩, h2, htrees⟩ := bind_eq_ok.mp htrees
  obtain ⟨⟨v3, p3, t3⟩, h3, htrees⟩ := bind_eq_ok.mp htrees
  obtain ⟨t4, h4, htrees⟩ := bind_eq_ok.mp htrees
  obtain ⟨⟨v4, p4, t5⟩, h5, htrees⟩ := bind_eq_ok.mp htrees
  obtain ⟨⟨v5, p5, t6⟩, h6, htrees⟩ := bind_eq_ok.mp htrees
  obtain ⟨t7, h7, htrees⟩ := bind_eq_ok.mp htrees
  obtain ⟨⟨v6, p6, t8⟩, h8, htrees⟩ := bind_eq_ok.mp htrees
  obtain ⟨t9, h9, htrees⟩ := bind_eq_ok.mp htrees
  obtain ⟨t10, h10, htrees⟩ := bind_eq_ok.mp htrees
  obtain ⟨t11, h11, htrees⟩ := bind_eq_ok.mp htrees
  cases htrees
  have hk0 := hm.reachable.running.ok
  have hstart : TreeRun k0 k0 (k0.physicalMemoryState, k0.virtualMemoryState) [] 1534 :=
    ⟨AllocRun.start.inv hk0 hm.reachable.running.cr3, rfl, hm.pool⟩
  obtain ⟨k1, hstack, r1⟩ := hstart.virtualAlloc h1 (by decide) (by decide) (by decide) (by decide)
    (by decide) .user pageFlagsNone
  obtain ⟨k2, hbuffer, r2⟩ := r1.virtualAlloc h2 (by decide) (by decide) (by decide) (by decide)
    (by decide) .user pageFlagsNone
  obtain ⟨k3, himage, r3⟩ := r2.virtualAlloc h3 (by decide) (by decide) (by decide) (by decide)
    (by decide) .user pageFlagsNone
  obtain ⟨k4, hbufferFree, r4⟩ := (r3.perm (.swap _ _ _)).virtualFree hk0 h4
  obtain ⟨k5, hlinkerBuffer, r5⟩ := r4.virtualAlloc h5 (by decide) (by decide) (by decide)
    (by decide) (by decide) .user pageFlagsNone
  obtain ⟨k6, hlinkerImage, r6⟩ := r5.virtualAlloc h6 (by decide) (by decide) (by decide)
    (by decide) (by decide) .user pageFlagsNone
  obtain ⟨k7, hlinkerBufferFree, r7⟩ := (r6.perm (.swap _ _ _)).virtualFree hk0 h7
  obtain ⟨k8, htls, r8⟩ := r7.virtualAlloc h8 (by decide) (by decide) (by decide) (by decide)
    (by decide) .user pageFlagsNone
  obtain ⟨k9, hstackFree, r9⟩ :=
    (r8.perm (List.perm_append_singleton _ [_, _, _])).virtualFree hk0 h9
  obtain ⟨k10, htlsFree, r10⟩ := r9.virtualFree hk0 h10
  obtain ⟨k11, hlinkerFree, -⟩ := r10.virtualFree hk0 h11
  exact ⟨fun i => [k0, k1, k2, k3, k4, k5, k6, k7, k8, k9, k10].getD i k11, hm.reachable,
    ⟨hstack, hbuffer, himage, hbufferFree, hlinkerBuffer, hlinkerImage, hlinkerBufferFree, htls,
      hstackFree, htlsFree, hlinkerFree⟩⟩

/-- On the example machine the program runs, and is given up again. -/
theorem exists_run : ∃ process s s1 s', Reachable s.memory ∧
    s.system.implementation 0 = some .standardIo ∧
    opensInterpreters twoFiles (fun _ => 1) parseTwo (fun _ => []) helloName s = [linkerName] ∧
    OnVolume .fat (fun _ => 1) s.system linkerName ∧
    ¬ OnVolume .device (fun _ => 1) s.system linkerName ∧
    s.createProcess 0 twoFiles (fun _ => 1) parseTwo (fun _ => []) helloName =
      .ok (some process, s1) ∧
    s.runProgram 0 twoFiles (fun _ => 1) parseTwo (fun _ => []) helloName = .ok s' := by
  obtain ⟨k, hreachable, h⟩ := exists_runMemory
  obtain ⟨vh, hfat, hhello, hlinker⟩ := exists_fatVolume
  obtain ⟨handle, hcreate⟩ := h.create
  obtain ⟨s', hdestroy⟩ := h.destroy handle
  have hbreak : VolumeSystem.breakPath (fun _ => 1) (runStart (k 0)).system.volumeIndices
      linkerName = .ok (vh, 0) := hlinker
  have hfat' : (runStart (k 0)).system.implementation vh = some .fat := hfat
  have hvolume : ∀ volume, OnVolume volume (fun _ => 1) (runStart (k 0)).system linkerName →
      volume = .fat := by
    intro volume hon
    have himpl := (onVolume_iff hbreak).mp hon
    exact Option.some.inj (himpl.symm.trans hfat')
  refine ⟨runProcess, runStart (k 0), runCreated (k 8) handle, s', hreachable, rfl, ?_,
    (onVolume_iff hbreak).mpr hfat', fun hon => absurd (hvolume _ hon) (by decide), hcreate, ?_⟩
  · have hfile : fileAt twoFiles (fun _ => 1) (runStart (k 0)).system helloName =
        some helloFile := by
      have hfirst : VolumeSystem.breakPath (fun _ => 1) (runStart (k 0)).system.volumeIndices
          helloName = .ok (vh, 0) := hhello
      unfold fileAt
      rw [hfirst]
      rfl
    have hnone : State.lookup (fun _ => []) (runStart (k 0)).heap helloName
        (runStart (k 0)).gELFBinaries = .ok none := rfl
    simp only [opensInterpreters, hnone, hfile]
    rfl
  · unfold State.runProgram
    rw [hcreate]
    exact hdestroy

end Example

/-- Pages and files come back exactly when no interpreter is opened. -/
theorem run_balanced_iff (devices : Devices) (xxh64 : List ℕ → ℕ) (parse : List UInt8 → Image)
    (stale : ℕ → Name) (programName : Name) (process : Process) (s s1 s' : State)
    (hreachable : Reachable s.memory)
    (hstreams : s.system.implementation 0 = some .standardIo)
    (hdevice : ∀ path ∈ opensInterpreters devices xxh64 parse stale programName s,
      ¬ OnVolume .device xxh64 s.system path)
    (hcreate : s.createProcess 0 devices xxh64 parse stale programName = .ok (some process, s1))
    (hrun : s.runProgram 0 devices xxh64 parse stale programName = .ok s') :
    Balanced s s' ↔ ∀ path ∈ opensInterpreters devices xxh64 parse stale programName s,
      ¬ OnVolume .fat xxh64 s.system path := by
  have hdestroy : s1.destroyProcess 0 process = .ok s' := by
    unfold State.runProgram at hrun
    rwa [hcreate, ok_bind] at hrun
  have hleak := exists_leaked_file hreachable.running hstreams hcreate hdestroy
  obtain ⟨p, elfBinary, t1, t2, t3, t4, hcreates⟩ := createProcess_eq_ok hcreate
  constructor
  · intro hbalanced path hmem hon
    obtain ⟨i, hfree, hused⟩ := hleak.mpr ⟨path, hmem, hon⟩
    exact hused ((hbalanced.fileHandles i).mpr hfree)
  · intro hfat
    obtain ⟨mine, frame, frame', howned, hledger⟩ :=
      hcreates.ledger hreachable.running hstreams hfat hdevice
    refine ⟨hledger.destroyProcess hreachable.running howned hdestroy, fun i => ⟨fun hfree => ?_,
      fun hfree => ?_⟩⟩
    · by_contra hused
      refine (hcreates.takes hreachable.running hstreams).files i hused ?_
      rw [← destroyProcess_files hdestroy]
      exact hfree
    · by_contra hused
      obtain ⟨path, hmem, hon⟩ := hleak.mp ⟨i, hfree, hused⟩
      exact hfat path hmem hon

theorem run_balanced_iff_linked : ∃ process s s1 s', Reachable s.memory ∧
    s.createProcess 0 twoFiles (fun _ => 1) parseTwo (fun _ => []) helloName =
      .ok (some process, s1) ∧
    s.runProgram 0 twoFiles (fun _ => 1) parseTwo (fun _ => []) helloName = .ok s' ∧
    (Balanced s s' ↔
      ∀ path ∈ opensInterpreters twoFiles (fun _ => 1) parseTwo (fun _ => []) helloName s,
        ¬ OnVolume .fat (fun _ => 1) s.system path) := by
  obtain ⟨process, s, s1, s', hreachable, hstreams, hopens, -, hdevice, hcreate, hrun⟩ := exists_run
  refine ⟨process, s, s1, s', hreachable, hcreate, hrun,
    run_balanced_iff _ _ _ _ _ process s s1 s' hreachable hstreams ?_ hcreate hrun⟩
  rw [hopens]
  simpa using hdevice

/-- The file of the interpreter stays open. -/
theorem linked_run_leaks_file : ¬ ∀ process s s1 s', Reachable s.memory →
    s.system.implementation 0 = some .standardIo →
    s.createProcess 0 twoFiles (fun _ => 1) parseTwo (fun _ => []) helloName =
      .ok (some process, s1) →
    s.runProgram 0 twoFiles (fun _ => 1) parseTwo (fun _ => []) helloName = .ok s' →
    Balanced s s' := by
  intro h
  obtain ⟨process, s, s1, s', hreachable, hstreams, hopens, hfat, -, hcreate, hrun⟩ := exists_run
  have hdestroy : s1.destroyProcess 0 process = .ok s' := by
    unfold State.runProgram at hrun
    rwa [hcreate, ok_bind] at hrun
  obtain ⟨i, hfree, hused⟩ :=
    (exists_leaked_file hreachable.running hstreams hcreate hdestroy).mpr
      ⟨linkerName, by rw [hopens]; exact List.mem_cons_self, hfat⟩
  exact hused (((h process s s1 s' hreachable hstreams hcreate hrun).fileHandles i).mpr hfree)

end Enkel.ProgramRun
