import Enkel.MemoryMap

/-!
How the bootloader leaves the firmware. ExitBootServices takes the key of the present memory
map, and nearly every service can change the map, even the printing of a line. So the map is
fetched once more when nothing is left to ask for, into a buffer with room for the descriptors
that came in between.
-/
namespace Enkel.BootHandover

open Outcome Paging

abbrev efiSuccess : ℕ := 0
abbrev efiInvalidParameter : ℕ := 2 ^ 63 + 2
abbrev efiBufferTooSmall : ℕ := 2 ^ 63 + 5
abbrev haltAssert : ℕ := 0xBADC0DE

/-- A text that is printed; a number is printed in decimal. -/
inductive Text
  | literal (text : String)
  | decimal (value : ℕ)
deriving DecidableEq, Repr

/-- A call of Halt, which does not return. -/
structure Halted where
  status : ℕ
  message : String
deriving DecidableEq, Repr

/-- What GetMemoryMap returns and stores. -/
structure MapAnswer where
  status : ℕ
  memoryMapSize : ℕ
  mapKey : ℕ
  descriptorSize : ℕ
  descriptorVersion : ℕ
  memoryMap : List MemoryDescriptor
deriving DecidableEq, Repr

/-- The services of the firmware that the bootloader uses here. An error is a status. -/
structure Firmware (σ : Type) where
  getMemoryMap : (memoryMapSize memoryMap : ℕ) → σ → MapAnswer
  outputString : Text → σ → σ
  allocateAnyPages : (type pages : ℕ) → σ → Except ℕ (ℕ × σ)
  allocateAddress : (type pages address : ℕ) → σ → Except ℕ σ
  freePages : (address pages : ℕ) → σ → Except ℕ σ
  exitBootServices : (mapKey : ℕ) → σ → ℕ

/-- Allocation. -/
structure Block where
  data : ℕ
  pageCount : ℕ
deriving DecidableEq, Repr

/-- What was asked of the firmware about blocks of memory. -/
inductive Call
  | allocated (b : Block)
  | freed (b : Block)
  | filled (memoryMap memoryMapSize : ℕ)
deriving DecidableEq, Repr

/-- The firmware, and the calls so far. -/
structure Boot (σ : Type) where
  state : σ
  calls : List Call
deriving DecidableEq, Repr

/-- KernelMemoryLocation. -/
structure Location where
  virtualStart : ℕ
  physicalStart : ℕ
  byteSize : ℕ
deriving DecidableEq, Repr

/-- What is used of KernelBootData. -/
structure BootData where
  kernelStack : Location
  framebuffer : Location
  apBootstrap : Location
  tables : Location
  map : ℕ
  mapSize : ℕ
  entries : ℕ
  descriptorSize : ℕ
  descriptorVersion : ℕ
  runtimeServices : ℕ
  framebufferBase : ℕ
  framebufferPitch : ℕ
  framebufferHeight : ℕ
deriving DecidableEq, Repr

/-- What the kernel is entered with, and what the buffer of the map holds by then. -/
structure Entered where
  bootDataAddress : ℕ
  kernelStart : ℕ
  stackPointer : ℕ
  bootData : BootData
  memoryMap : List MemoryDescriptor
deriving DecidableEq, Repr

abbrev sizeofKernelBootData : ℕ := 240
abbrev stackSize : ℕ := 512 * 1024
abbrev apBootstrapPage : ℕ := 0xC000
abbrev tablePage : ℕ := 0xA000
abbrev tablePageCount : ℕ := 2

section Boot
variable {σ : Type} (fw : Firmware σ)

def print (text : Text) (w : Boot σ) : Boot σ := { w with state := fw.outputString text w.state }

def allocatePages (pageType sizeInBytes : ℕ) (w : Boot σ) : Except Halted (Block × Boot σ) :=
  let pageCount := add64 sizeInBytes (pageSize - 1) / pageSize
  match fw.allocateAnyPages pageType pageCount w.state with
  | .error status => throw ⟨status, "AllocatePages failed"⟩
  | .ok (data, state) =>
    return (⟨data, pageCount⟩, ⟨state, w.calls ++ [.allocated ⟨data, pageCount⟩]⟩)

def freePages (b : Block) (w : Boot σ) : Except Halted (Boot σ) :=
  match fw.freePages b.data b.pageCount w.state with
  | .error status => throw ⟨status, "FreePages failed"⟩
  | .ok state => return ⟨state, w.calls ++ [.freed b]⟩

/-- AllocatePages at an address, followed by the assertion. -/
def allocateAddress (pageType pages address : ℕ) (message : String) (w : Boot σ) :
    Except Halted (Boot σ) :=
  match fw.allocateAddress pageType pages address w.state with
  | .error _ => throw ⟨haltAssert, message⟩
  | .ok state => return ⟨state, w.calls ++ [.allocated ⟨address, pages⟩]⟩

/-- GetMemoryMap into a buffer. -/
def fill (memoryMap memoryMapSize : ℕ) (w : Boot σ) : MapAnswer × Boot σ :=
  (fw.getMemoryMap memoryMapSize memoryMap w.state,
    { w with calls := w.calls ++ [.filled memoryMap memoryMapSize] })

def printEntries (memoryMapSize descriptorSize : ℕ) (w : Boot σ) : Boot σ :=
  print fw (.literal "\r\n") (print fw (.decimal (memoryMapSize / descriptorSize))
    (print fw (.literal "Memory map entries: ") w))

/-- The size with a bit of a buffer. -/
def allocatedSize (memoryMapSize descriptorSize : ℕ) : ℕ :=
  add64 memoryMapSize (8 * descriptorSize % 2 ^ 64)

/-- What the loop does when the buffer is too small: a larger one takes its place. -/
def replaceBuffer (memoryMapAlloc : Block) (w : Boot σ) : Except Halted (ℕ × Block × Boot σ) := do
  let w := print fw (.literal "Memory map too small\r\n") w
  let w ← freePages fw memoryMapAlloc w
  let size := fw.getMemoryMap 0 0 w.state
  require (size.status = efiSuccess ∨ size.status = efiBufferTooSmall)
    ⟨size.status, "Failed to get memory map size (3)"⟩
  let w := printEntries fw size.memoryMapSize size.descriptorSize w
  let memoryMapSizeAllocated := allocatedSize size.memoryMapSize size.descriptorSize
  let (memoryMapAlloc, w) ← allocatePages fw efiLoaderCode memoryMapSizeAllocated w
  return (memoryMapSizeAllocated, memoryMapAlloc, w)

/-- The loop that fetches the map, with what is left of the retries. -/
def fetchLoop : (retries memoryMapSizeAllocated : ℕ) → Block → Boot σ →
    Except Halted (ℕ × Block × Boot σ)
  | retries, memoryMapSizeAllocated, memoryMapAlloc, w =>
    let (answer, w) := fill fw memoryMapAlloc.data memoryMapSizeAllocated w
    if answer.status = efiBufferTooSmall then do
      let (memoryMapSizeAllocated, memoryMapAlloc, w) ← replaceBuffer fw memoryMapAlloc w
      match retries with
      | 0 => throw ⟨answer.status, "Failed to get memory map"⟩
      | retries + 1 => fetchLoop retries memoryMapSizeAllocated memoryMapAlloc w
    else do
      require (answer.status = efiSuccess) ⟨answer.status, "Failed to get memory map"⟩
      return (memoryMapSizeAllocated, memoryMapAlloc, w)

/-- The blocks that the kernel is given, before the map is asked for. -/
def reserve (bootData : BootData) (w : Boot σ) :
    Except Halted (Block × Block × BootData × Boot σ) := do
  let (bootDataKernel, w) ← allocatePages fw efiLoaderData sizeofKernelBootData w
  let (stackRange, w) ← allocatePages fw efiLoaderData stackSize w
  let w ← allocateAddress fw efiLoaderCode 1 apBootstrapPage "Unable to allocate AP bootstrap" w
  let w ← allocateAddress fw efiLoaderData tablePageCount tablePage
    "Unable to allocate tables page" w
  let bootData := { bootData with
    apBootstrap := ⟨apBootstrapPage, apBootstrapPage, pageSize⟩
    tables := ⟨tablePage, tablePage, pageSize * tablePageCount⟩
    kernelStack := ⟨stackRange.data, stackRange.data, stackSize⟩ }
  return (bootDataKernel, stackRange, bootData, w)

/-- From the first question for the size of the map to the last fetch of it. -/
def fetchMap (w : Boot σ) : Except Halted (ℕ × MapAnswer × Boot σ) := do
  let size := fw.getMemoryMap 0 0 w.state
  require (size.status = efiBufferTooSmall) ⟨size.status, "Failed to get memory map size"⟩
  let w := printEntries fw size.memoryMapSize size.descriptorSize w
  let memoryMapSizeAllocated := allocatedSize size.memoryMapSize size.descriptorSize
  let (memoryMapAlloc, w) ← allocatePages fw efiLoaderCode memoryMapSizeAllocated w
  let (memoryMapSizeAllocated, memoryMapAlloc, w) ←
    fetchLoop fw 5 memoryMapSizeAllocated memoryMapAlloc w
  let w := print fw (.literal "Starting kernel...\r\n") w
  let (answer, w) := fill fw memoryMapAlloc.data memoryMapSizeAllocated w
  if answer.status ≠ efiSuccess then
    let size := fw.getMemoryMap 0 0 w.state
    require (size.status = efiSuccess) ⟨size.status, "Failed to get memory map size (4)"⟩
    throw ⟨answer.status, "Failed to get memory map (pre-exit)"⟩
  else
    return (memoryMapAlloc.data, answer, w)

/-- ExitToKernel. -/
def exitToKernel (runtimeServices : ℕ) (bootData : BootData) (kernelStart : ℕ) (w : Boot σ) :
    Except Halted (Entered × Boot σ) := do
  let (bootDataKernel, stackRange, bootData, w) ← reserve fw bootData w
  let (memoryMap, answer, w) ← fetchMap fw w
  let bootData := { bootData with
    runtimeServices := runtimeServices
    map := memoryMap
    mapSize := answer.memoryMapSize % 2 ^ 32
    entries := answer.memoryMapSize / answer.descriptorSize % 2 ^ 32
    descriptorSize := answer.descriptorSize % 2 ^ 32
    descriptorVersion := answer.descriptorVersion
    framebuffer := ⟨bootData.framebufferBase, bootData.framebufferBase,
      bootData.framebufferPitch * bootData.framebufferHeight % 2 ^ 32⟩ }
  let status := fw.exitBootServices answer.mapKey w.state
  require (status = efiSuccess) ⟨status, "Error exiting boot services"⟩
  return (⟨bootDataKernel.data, kernelStart, add64 stackRange.data stackSize, bootData,
    answer.memoryMap⟩, w)

end Boot

/-- The blocks that are allocated after a call; `none` if it frees another block, or if a map
is stored outside the blocks. -/
def Call.apply (live : List Block) : Call → Option (List Block)
  | .allocated b => some (b :: live)
  | .freed b => if b ∈ live then some (live.erase b) else none
  | .filled memoryMap memoryMapSize =>
    if ∃ b ∈ live, b.data = memoryMap ∧ memoryMapSize ≤ b.pageCount * pageSize then some live
    else none

def liveBlocks (calls : List Call) : Option (List Block) := calls.foldlM Call.apply []

/-- GetMemoryMap and ExitBootServices are as the firmware documents them, for the map and the
key that its states have. -/
structure Documented {σ : Type} (fw : Firmware σ) (map : σ → List MemoryDescriptor)
    (key : σ → ℕ) (descriptorSize descriptorVersion : ℕ) : Prop where
  tooSmall : ∀ size buffer s, size < descriptorSize * (map s).length →
    (fw.getMemoryMap size buffer s).status = efiBufferTooSmall ∧
    (fw.getMemoryMap size buffer s).memoryMapSize = descriptorSize * (map s).length ∧
    (fw.getMemoryMap size buffer s).descriptorSize = descriptorSize
  noBuffer : ∀ size s, descriptorSize * (map s).length ≤ size →
    (fw.getMemoryMap size 0 s).status = efiInvalidParameter
  stored : ∀ size buffer s, descriptorSize * (map s).length ≤ size → buffer ≠ 0 →
    fw.getMemoryMap size buffer s = ⟨efiSuccess, descriptorSize * (map s).length, key s,
      descriptorSize, descriptorVersion, map s⟩
  exit : ∀ mapKey s, fw.exitBootServices mapKey s = efiSuccess ↔ mapKey = key s
  size_pos : ∀ s, 0 < descriptorSize * (map s).length
  bounded : ∀ s, descriptorSize * ((map s).length + 8) + pageSize ≤ 2 ^ 64

/-- The bootloader halts with one of these messages. -/
def Says (messages : List String) (e : Halted) : Prop := e.message ∈ messages

section Live
variable {calls : List Call} {live : List Block} {b : Block}

theorem liveBlocks_append (c : Call) (h : liveBlocks calls = some live) :
    liveBlocks (calls ++ [c]) = c.apply live := by
  unfold liveBlocks at h ⊢
  rw [List.foldlM_append, h]
  simp

theorem liveBlocks_allocated (h : liveBlocks calls = some live) :
    liveBlocks (calls ++ [.allocated b]) = some (b :: live) := liveBlocks_append _ h

theorem liveBlocks_freed (h : liveBlocks calls = some (b :: live)) :
    liveBlocks (calls ++ [.freed b]) = some live := by
  rw [liveBlocks_append _ h, Call.apply, if_pos List.mem_cons_self, List.erase_cons_head]

theorem liveBlocks_filled {size : ℕ} (h : liveBlocks calls = some (b :: live))
    (hsize : size ≤ b.pageCount * pageSize) :
    liveBlocks (calls ++ [.filled b.data size]) = some (b :: live) := by
  rw [liveBlocks_append _ h, Call.apply, if_pos ⟨b, List.mem_cons_self, rfl, hsize⟩]

end Live

section Services
variable {σ : Type} {fw : Firmware σ} {w : Boot σ} {b : Block} {live : List Block}

theorem allocatePages_meets (pageType : ℕ) {sizeInBytes : ℕ}
    (hsize : sizeInBytes + pageSize ≤ 2 ^ 64) :
    Meets (fun e => e.message = "AllocatePages failed")
      (fun r => fw.allocateAnyPages pageType r.1.pageCount w.state = .ok (r.1.data, r.2.state) ∧
        sizeInBytes ≤ r.1.pageCount * pageSize ∧ r.2.calls = w.calls ++ [.allocated r.1])
      (allocatePages fw pageType sizeInBytes w) := by
  have hcount : sizeInBytes ≤ add64 sizeInBytes (pageSize - 1) / pageSize * pageSize := by
    unfold pageSize at hsize ⊢
    unfold add64
    omega
  unfold allocatePages
  dsimp only
  cases hanswer : fw.allocateAnyPages pageType (add64 sizeInBytes (pageSize - 1) / pageSize)
    w.state with
  | error status => exact meets_throw rfl
  | ok r => exact meets_pure ⟨hanswer, hcount, rfl⟩

theorem freePages_meets : Meets (fun e => e.message = "FreePages failed")
    (fun w' => w'.calls = w.calls ++ [.freed b]) (freePages fw b w) := by
  unfold freePages
  cases fw.freePages b.data b.pageCount w.state with
  | error status => exact meets_throw rfl
  | ok state => exact meets_pure rfl

theorem allocateAddress_meets (pageType pages address : ℕ) (message : String) :
    Meets (fun e => e.message = message)
      (fun w' => w'.calls = w.calls ++ [.allocated ⟨address, pages⟩])
      (allocateAddress fw pageType pages address message w) := by
  unfold allocateAddress
  cases fw.allocateAddress pageType pages address w.state with
  | error status => exact meets_throw rfl
  | ok state => exact meets_pure rfl

@[simp] theorem print_calls (text : Text) : (print fw text w).calls = w.calls := rfl

@[simp] theorem printEntries_calls (memoryMapSize descriptorSize : ℕ) :
    (printEntries fw memoryMapSize descriptorSize w).calls = w.calls := rfl

end Services

section Documented
variable {σ : Type} {fw : Firmware σ} {map : σ → List MemoryDescriptor} {key : σ → ℕ}
  {descriptorSize descriptorVersion : ℕ}
  (h : Documented fw map key descriptorSize descriptorVersion)
include h

/-- Without a buffer the answer is the size of the map. -/
theorem Documented.size_answer (s : σ) : (fw.getMemoryMap 0 0 s).status = efiBufferTooSmall ∧
    allocatedSize (fw.getMemoryMap 0 0 s).memoryMapSize (fw.getMemoryMap 0 0 s).descriptorSize =
      descriptorSize * ((map s).length + 8) := by
  obtain ⟨hstatus, hsize, hdescriptor⟩ := h.tooSmall 0 0 s (h.size_pos s)
  have hbounded := h.bounded s
  have hmul : descriptorSize * ((map s).length + 8) =
      descriptorSize * (map s).length + 8 * descriptorSize := by ring
  unfold pageSize at hbounded
  refine ⟨hstatus, ?_⟩
  rw [hsize, hdescriptor, allocatedSize, add64, Nat.mod_eq_of_lt (a := 8 * descriptorSize)
    (by omega), Nat.mod_eq_of_lt (by omega), hmul]

/-- A map that is fetched is the present one. -/
theorem Documented.stored_of_success {size buffer : ℕ} {s : σ}
    (hsuccess : (fw.getMemoryMap size buffer s).status = efiSuccess) :
    fw.getMemoryMap size buffer s = ⟨efiSuccess, descriptorSize * (map s).length, key s,
      descriptorSize, descriptorVersion, map s⟩ := by
  rcases Nat.lt_or_ge size (descriptorSize * (map s).length) with hlt | hge
  · have hsmall := (h.tooSmall size buffer s hlt).1
    rw [hsuccess] at hsmall
    exact absurd hsmall (by decide)
  · apply h.stored size buffer s hge
    rintro rfl
    have hnone := h.noBuffer size s hge
    rw [hsuccess] at hnone
    exact absurd hnone (by decide)

theorem Documented.replaceBuffer_meets {live : List Block} {b : Block} {w : Boot σ}
    (hlive : liveBlocks w.calls = some (b :: live)) :
    Meets (Says ["FreePages failed", "AllocatePages failed"])
      (fun r => liveBlocks r.2.2.calls = some (r.2.1 :: live) ∧
        r.1 ≤ r.2.1.pageCount * pageSize) (replaceBuffer fw b w) := by
  unfold replaceBuffer
  dsimp only
  refine meets_bind (meets_mono freePages_meets (fun e he => by simp [Says, he]) fun _ hw => hw)
    fun w' hcalls => ?_
  rw [print_calls] at hcalls
  obtain ⟨hstatus, hallocated⟩ := h.size_answer w'.state
  refine meets_require (fun hnot => absurd (Or.inr hstatus) hnot) fun _ => ?_
  rw [hallocated]
  refine meets_bind (meets_mono (allocatePages_meets efiLoaderCode (h.bounded w'.state))
    (fun e he => by simp [Says, he]) fun _ hr => hr) ?_
  rintro ⟨b', w''⟩ ⟨-, hsize, hcalls'⟩
  rw [printEntries_calls, hcalls] at hcalls'
  apply meets_pure
  refine ⟨?_, hsize⟩
  rw [hcalls']
  exact liveBlocks_allocated (liveBlocks_freed hlive)

/-- The loop keeps one buffer, large enough for what is asked. -/
theorem Documented.fetchLoop_meets {live : List Block} (retries : ℕ) {size : ℕ} {b : Block}
    {w : Boot σ} (hlive : liveBlocks w.calls = some (b :: live))
    (hsize : size ≤ b.pageCount * pageSize) :
    Meets (Says ["FreePages failed", "AllocatePages failed", "Failed to get memory map"])
      (fun r => liveBlocks r.2.2.calls = some (r.2.1 :: live) ∧
        r.1 ≤ r.2.1.pageCount * pageSize)
      (fetchLoop fw retries size b w) := by
  have hreplace : ∀ {b : Block} {w : Boot σ}, liveBlocks w.calls = some (b :: live) →
      Meets (Says ["FreePages failed", "AllocatePages failed", "Failed to get memory map"])
        (fun r => liveBlocks r.2.2.calls = some (r.2.1 :: live) ∧
          r.1 ≤ r.2.1.pageCount * pageSize) (replaceBuffer fw b w) := fun hlive =>
    meets_mono (h.replaceBuffer_meets hlive)
      (fun e he => by simp only [Says, List.mem_cons] at he ⊢; tauto) fun _ hr => hr
  induction retries generalizing size b w with
  | zero =>
    have hfill := liveBlocks_filled hlive hsize
    unfold fetchLoop
    dsimp only
    refine meets_ite (fun _ => meets_bind (hreplace hfill) fun r _ => ?_) fun _ => ?_
    · exact meets_throw (by simp [Says])
    · exact meets_require (fun _ => by simp [Says]) fun _ => meets_pure ⟨hfill, hsize⟩
  | succ retries ih =>
    have hfill := liveBlocks_filled hlive hsize
    unfold fetchLoop
    dsimp only
    refine meets_ite (fun _ => meets_bind (hreplace hfill) ?_) fun _ => ?_
    · rintro ⟨size', b', w'⟩ ⟨hlive', hsize'⟩
      exact ih hlive' hsize'
    · exact meets_require (fun _ => by simp [Says]) fun _ => meets_pure ⟨hfill, hsize⟩

/-- The map that is fetched last is the one that the firmware still has. -/
theorem Documented.fetchMap_meets {live : List Block} {w : Boot σ}
    (hlive : liveBlocks w.calls = some live) :
    Meets (Says ["FreePages failed", "AllocatePages failed", "Failed to get memory map",
        "Failed to get memory map size (4)"])
      (fun r => (∃ pageCount, liveBlocks r.2.2.calls = some (⟨r.1, pageCount⟩ :: live) ∧
          r.2.1.memoryMapSize ≤ pageCount * pageSize) ∧
        r.2.1 = ⟨efiSuccess, descriptorSize * (map r.2.2.state).length, key r.2.2.state,
          descriptorSize, descriptorVersion, map r.2.2.state⟩) (fetchMap fw w) := by
  obtain ⟨hstatus, hallocated⟩ := h.size_answer w.state
  unfold fetchMap
  dsimp only
  refine meets_require (fun hnot => absurd hstatus hnot) fun _ => ?_
  rw [hallocated]
  refine meets_bind (meets_mono (allocatePages_meets efiLoaderCode (h.bounded w.state))
    (fun e he => by simp [Says, he]) fun _ hr => hr) ?_
  rintro ⟨b, w1⟩ ⟨-, hsize, hcalls⟩
  rw [printEntries_calls] at hcalls
  have hlive1 : liveBlocks w1.calls = some (b :: live) := by
    rw [hcalls]
    exact liveBlocks_allocated hlive
  refine meets_bind (meets_mono (h.fetchLoop_meets 5 hlive1 hsize)
    (fun e he => by simp only [Says, List.mem_cons] at he ⊢; tauto) fun _ hr => hr) ?_
  rintro ⟨size, b', w2⟩ ⟨hlive2, hsize2⟩
  unfold fill
  dsimp only
  refine meets_ite (fun hfail => ?_) fun hok => ?_
  · -- a question for the size is never answered with a success
    refine meets_require (fun _ => by simp [Says]) fun hsuccess => absurd hsuccess ?_
    rw [(h.size_answer _).1]
    decide
  · have hstored := h.stored_of_success (not_not.mp hok)
    refine meets_pure ⟨⟨b'.pageCount, liveBlocks_filled hlive2 hsize2, ?_⟩, hstored⟩
    dsimp only
    rcases Nat.lt_or_ge size (descriptorSize *
      (map (print fw (.literal "Starting kernel...\r\n") w2).state).length) with hlt | hge
    · exact absurd (not_not.mp hok) (by rw [(h.tooSmall _ _ _ hlt).1]; decide)
    · rw [hstored]
      exact hge.trans hsize2

/-- A firmware whose map grows by at most so many descriptors when a text is printed, and when
pages are allocated. It does not give the page at 0. -/
structure Slow {σ : Type} (fw : Firmware σ) (map : σ → List MemoryDescriptor)
    (printed allocated : ℕ) : Prop where
  print : ∀ text s, (map (fw.outputString text s)).length ≤ (map s).length + printed
  allocate : ∀ type pages s data s', fw.allocateAnyPages type pages s = .ok (data, s') →
    data ≠ 0 ∧ (map s').length ≤ (map s).length + allocated

/-- The room in the buffer is enough for what comes between the question and the last fetch. -/
theorem Documented.fetchMap_slow {printed allocated : ℕ} (hslow : Slow fw map printed allocated)
    (hroom : 4 * printed + allocated ≤ 8) {w : Boot σ} :
    Meets (Says ["AllocatePages failed"])
      (fun r => ∃ pageCount size, r.2.2.calls =
        w.calls ++ [.allocated ⟨r.1, pageCount⟩, .filled r.1 size, .filled r.1 size] ∧
        r.2.1 = ⟨efiSuccess, descriptorSize * (map r.2.2.state).length, key r.2.2.state,
          descriptorSize, descriptorVersion, map r.2.2.state⟩) (fetchMap fw w) := by
  obtain ⟨hstatus, hallocated⟩ := h.size_answer w.state
  unfold fetchMap
  dsimp only
  refine meets_require (fun hnot => absurd hstatus hnot) fun _ => ?_
  rw [hallocated]
  have hentries : ∀ size descriptor, (map (printEntries fw size descriptor w).state).length ≤
      (map w.state).length + 3 * printed := by
    intro size descriptor
    have h1 := hslow.print (.literal "Memory map entries: ") w.state
    have h2 := hslow.print (.decimal (size / descriptor))
      (print fw (.literal "Memory map entries: ") w).state
    have h3 := hslow.print (.literal "\r\n") (print fw (.decimal (size / descriptor))
      (print fw (.literal "Memory map entries: ") w)).state
    unfold printEntries
    unfold print at h2 h3 ⊢
    dsimp only at h2 h3 ⊢
    omega
  specialize hentries (fw.getMemoryMap 0 0 w.state).memoryMapSize
    (fw.getMemoryMap 0 0 w.state).descriptorSize
  refine meets_bind (meets_mono (allocatePages_meets efiLoaderCode (h.bounded w.state))
    (fun e he => by simp [Says, he]) fun _ hr => hr) ?_
  rintro ⟨b, w1⟩ ⟨hanswer, -, hcalls⟩
  obtain ⟨hdata, hgrown⟩ := hslow.allocate _ _ _ _ _ hanswer
  dsimp only at hdata hgrown
  rw [printEntries_calls] at hcalls
  dsimp only at hcalls
  -- the map fits in the buffer the first time
  have hfirst := h.stored (descriptorSize * ((map w.state).length + 8)) b.data w1.state
    (Nat.mul_le_mul_left _ (by omega)) hdata
  have hfetch : fetchLoop fw 5 (descriptorSize * ((map w.state).length + 8)) b w1 =
      .ok (descriptorSize * ((map w.state).length + 8), b,
        (fill fw b.data (descriptorSize * ((map w.state).length + 8)) w1).2) := by
    unfold fetchLoop fill
    dsimp only
    rw [hfirst, if_neg (show efiSuccess ≠ efiBufferTooSmall by decide), require_true rfl, ok_bind]
    rfl
  rw [hfetch, ok_bind]
  have hlast := hslow.print (.literal "Starting kernel...\r\n") w1.state
  have hsecond := h.stored (descriptorSize * ((map w.state).length + 8)) b.data
    (fw.outputString (.literal "Starting kernel...\r\n") w1.state)
    (Nat.mul_le_mul_left _ (by omega)) hdata
  unfold fill print
  dsimp only
  rw [hsecond, if_neg (not_not.mpr rfl)]
  refine meets_pure ⟨b.pageCount, descriptorSize * ((map w.state).length + 8), ?_, rfl⟩
  dsimp only
  rw [hcalls, List.append_assoc, List.append_assoc]
  rfl

end Documented

section Claim
variable {σ : Type} {fw : Firmware σ} {map : σ → List MemoryDescriptor} {key : σ → ℕ}
  {descriptorSize descriptorVersion : ℕ}

theorem reserve_meets (bootData : BootData) (s : σ) :
    Meets (Says ["AllocatePages failed", "Unable to allocate AP bootstrap",
        "Unable to allocate tables page"])
      (fun r => r.2.2.2.calls = [.allocated r.1, .allocated r.2.1,
          .allocated ⟨apBootstrapPage, 1⟩, .allocated ⟨tablePage, tablePageCount⟩])
      (reserve fw bootData ⟨s, []⟩) := by
  unfold reserve
  refine meets_bind (meets_mono (allocatePages_meets efiLoaderData (by decide))
    (fun e he => by simp [Says, he]) fun _ hr => hr) ?_
  rintro ⟨b, w1⟩ ⟨-, -, hcalls1⟩
  refine meets_bind (meets_mono (allocatePages_meets efiLoaderData (by decide))
    (fun e he => by simp [Says, he]) fun _ hr => hr) ?_
  rintro ⟨b', w2⟩ ⟨-, -, hcalls2⟩
  refine meets_bind (meets_mono (allocateAddress_meets efiLoaderCode 1 apBootstrapPage _)
    (fun e he => by simp [Says, he]) fun _ hr => hr) fun w3 hcalls3 => ?_
  refine meets_bind (meets_mono (allocateAddress_meets efiLoaderData tablePageCount tablePage _)
    (fun e he => by simp [Says, he]) fun _ hr => hr) fun w4 hcalls4 => ?_
  apply meets_pure
  dsimp only at hcalls1 hcalls2 hcalls3 hcalls4 ⊢
  rw [hcalls4, hcalls3, hcalls2, hcalls1]
  rfl

/-- A firmware that counts how much its map has grown, up to 1000 descriptors, and its free
pages. The count is the key. -/
def countingFirmware (printed allocated : ℕ) : Firmware (ℕ × ℕ) where
  getMemoryMap size buffer s :=
    if size < 48 * min (s.1 + 1) 1000 then
      ⟨efiBufferTooSmall, 48 * min (s.1 + 1) 1000, 0, 48, 1, []⟩
    else if buffer = 0 then ⟨efiInvalidParameter, size, 0, 48, 1, []⟩
    else ⟨efiSuccess, 48 * min (s.1 + 1) 1000, s.1, 48, 1,
      List.replicate (min (s.1 + 1) 1000) ⟨efiConventionalMemory, 0, 0, 0, 0⟩⟩
  outputString _ s := (s.1 + printed, s.2)
  allocateAnyPages _ pages s :=
    if pages ≤ s.2 then .ok (0x100000 * (s.2 + 1), (s.1 + allocated, s.2 - pages)) else .error 9
  allocateAddress _ pages _ s := .ok (s.1 + allocated, s.2 - pages)
  freePages _ pages s := .ok (s.1, s.2 + pages)
  exitBootServices mapKey s := if mapKey = s.1 then efiSuccess else efiInvalidParameter

/-- Its map, all of free memory. -/
def countingMap (s : ℕ × ℕ) : List MemoryDescriptor :=
  List.replicate (min (s.1 + 1) 1000) ⟨efiConventionalMemory, 0, 0, 0, 0⟩

theorem countingFirmware_documented (printed allocated : ℕ) :
    Documented (countingFirmware printed allocated) countingMap Prod.fst 48 1 := by
  have hlength : ∀ s, (countingMap s).length = min (s.1 + 1) 1000 := fun s => List.length_replicate
  constructor
  case tooSmall =>
    intro size buffer s hlt
    rw [hlength] at hlt ⊢
    unfold countingFirmware
    dsimp only
    rw [if_pos hlt]
    exact ⟨rfl, rfl, rfl⟩
  case noBuffer =>
    intro size s hge
    rw [hlength] at hge
    unfold countingFirmware
    dsimp only
    rw [if_neg (Nat.not_lt.mpr hge), if_pos rfl]
  case stored =>
    intro size buffer s hge hbuffer
    rw [hlength] at hge ⊢
    unfold countingFirmware
    dsimp only
    rw [if_neg (Nat.not_lt.mpr hge), if_neg hbuffer]
    rfl
  case exit =>
    intro mapKey s
    unfold countingFirmware
    dsimp only
    split_ifs with heq
    · simp [heq]
    · simp [heq]
  case size_pos =>
    intro s
    rw [hlength]
    omega
  case bounded =>
    intro s
    rw [hlength]
    unfold pageSize
    omega

/-- Boot data before anything is stored in it. -/
def emptyBootData : BootData :=
  ⟨⟨0, 0, 0⟩, ⟨0, 0, 0⟩, ⟨0, 0, 0⟩, ⟨0, 0, 0⟩, 0, 0, 0, 0, 0, 0, 0x80000000, 4096, 768⟩

end Claim

end Enkel.BootHandover
