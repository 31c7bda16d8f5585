import Enkel.ProgramRun
import Enkel.TextArrays

/-!
The arrays of a fixed size that a path is copied to: wideName of the system calls,
adjustedPath of FAT, and the two names in an ElfBinary. ascii_to_wide bounds the
characters but not the zero behind them, strcpy and strcat bound nothing. How much a path
may have depends on where it goes: 255 characters into wideName, 254 behind the mount
point of FAT, and 63 as the name of a binary that is new.
-/
namespace Enkel.PathArrays

open Outcome Paging TextArrays
open BinaryRegistry (Name)
open StandardStreams (widen asciiLoop asciiToWide widen_ne_zero)
open VolumeSystem (breakPath slash)
open VolumeCalls (System Devices Volume sysOpen sysOpenat sysAccess openPath fatOpenHandle)
open ProgramRun (State)

section Arrays
variable {size : ℕ}

/-- The loop of ascii_to_wide from an index on, with so many places left. -/
def wideLoop (bufferIn : ℕ → UInt8) :
    (index left : ℕ) → Vector ℕ size → Except VolumeCalls.Fault (Vector ℕ size)
  | index, 0, bufferOut => store .bufferOverflow index 0 bufferOut
  | index, left + 1, bufferOut =>
    if bufferIn index = 0 then
      store .bufferOverflow index 0 bufferOut
    else do
      let bufferOut ← store .bufferOverflow index (widen (bufferIn index)) bufferOut
      wideLoop bufferIn (index + 1) left bufferOut

def asciiToWideInto (bufferOut : Vector ℕ size) (bufferIn : ℕ → UInt8) (bufferOutBytes : ℕ) :
    Except VolumeCalls.Fault (Vector ℕ size) :=
  wideLoop bufferIn 0 bufferOutBytes bufferOut

/-- The name without the dot in front. -/
def skipDot (filename : ℕ → UInt8) : ℕ → UInt8 :=
  if filename 0 = 0x2E then fun i => filename (i + 1) else filename

/-- The path of FatVolume_OpenHandle. -/
def adjustedPath (path : List ℕ) (a : Vector ℕ 256) :
    Except VolumeCalls.Fault (Vector ℕ 256) := do
  let a ← strcpy .bufferOverflow [slash] a
  strcat .bufferOverflow path a

end Arrays

section Execve
variable (depth : ℕ) (devices : Devices) (xxh64 : List ℕ → ℕ) (stale : ℕ → Name)

/-- LoadElfFromMemory up to the copy of the name, for a name that is not in the list. -/
def newBinary (programName : Name) (s : State) : Except ProgramRun.Fault (Option State) := do
  match ← State.lookup stale s.heap programName s.gELFBinaries with
  | some _ => return none
  | none =>
    let (_, s) ← s.rpMalloc depth
    return some s

/-- LoadElfFromHandle up to that copy. -/
def readFile (programName : Name) (handle : ℕ) (s : State) :
    Except ProgramRun.Fault (Option State) :=
  if handle ≠ 0 then do
    let fileSize ← (s.system.volumeGetSize handle).mapError .volume
    let (_, s) ← s.virtualAlloc depth (alignSize fileSize pageSize)
    let (_, _, system) ← (s.system.volumeRead devices handle 0 fileSize).mapError .volume
    newBinary depth stale programName { s with system := system }
  else
    .ok none

/-- VolumeOpenHandle. FAT asks for the FIL when it has copied the path. -/
def openFile (path : Name) (s : State) : Except ProgramRun.Fault (ℕ × State) := do
  let (opened, system) ←
    (s.system.volumeOpenHandle depth devices xxh64 0 path).mapError .volume
  let (_, s) ← State.rpMalloc depth { s with system := system }
  return (opened.value, s)

/-- LoadElf up to the copy. -/
def openProgram (programName : Name) (s : State) : Except ProgramRun.Fault (Option State) := do
  let (handle, s) ← openFile depth devices xxh64 programName s
  readFile depth devices stale programName handle s

/-- The name of a binary, in the memory that memset has cleared. -/
def nameBinary (programName : Name) (reached : Except ProgramRun.Fault (Option State)) :
    Except ProgramRun.Fault (Option (Vector ℕ 64)) := do
  match ← reached with
  | none => return none
  | some _ =>
    let name ← (strcpy .bufferOverflow programName (Vector.replicate 64 0)).mapError .volume
    return some name

/-- The name that sys_execve passes to RunProgram, in a block of its size. -/
def execveName (filename : ℕ → UInt8) : Name := asciiToWide (skipDot filename) (2 ^ 30)

/-- sys_execve from the opening of the file to the name of the binary. -/
def execve (filename : ℕ → UInt8) (s : State) :
    Except ProgramRun.Fault (Option (Vector ℕ 64)) :=
  nameBinary (execveName filename)
    (openProgram depth devices xxh64 stale (execveName filename) s)

/-- A .interp section: its name goes into the binary and is opened. -/
def openInterpreter (interpreterName : Vector ℕ 256) (interpreter : ℕ → UInt8) (s : State) :
    Except ProgramRun.Fault ((Vector ℕ 256 × ℕ) × State) := do
  let interpreterName ← (asciiToWideInto interpreterName interpreter 256).mapError .volume
  let (handle, s) ← openFile depth devices xxh64 (text interpreterName) s
  return ((interpreterName, handle), s)

/-- CreateProcess loads the interpreter by its name. -/
def loadInterpreter (interpreterName : Vector ℕ 256) (handle : ℕ) (s : State) :
    Except ProgramRun.Fault (Option (Vector ℕ 64)) :=
  nameBinary (text interpreterName)
    (readFile depth devices stale (text interpreterName) handle s)

end Execve

section Fits

/-- At most 255 characters stand before the zero. -/
def Short (string : ℕ → UInt8) : Prop := ∃ i < 256, string i = 0

/-- FAT, if the path leads to it, gets at most 254 characters. -/
def FatFits (xxh64 : List ℕ → ℕ) (s : System) (path : List ℕ) : Prop :=
  ∀ handle base, breakPath xxh64 s.volumeIndices path = .ok (handle, base) →
    s.implementation handle = some .fat → (path.drop base).length < 255

/-- The path of a system call fits into wideName and, on FAT, into adjustedPath. -/
def CallFits (xxh64 : List ℕ → ℕ) (s : System) (filename : ℕ → UInt8) : Prop :=
  Short (skipDot filename) ∧ FatFits xxh64 s (asciiToWide (skipDot filename) 256)

/-- If the name is copied, it has at most 63 characters. -/
def NameFits (programName : Name) (reached : Except ProgramRun.Fault (Option State)) : Prop :=
  ∀ s, reached = .ok (some s) → programName.length < 64

end Fits

section Arrays
variable {size index left : ℕ} {bufferIn filename : ℕ → UInt8} {path : List ℕ}

theorem wideLoop_eq (bufferOut : Vector ℕ size) : wideLoop bufferIn index left bufferOut =
    copyFrom .bufferOverflow index (asciiLoop bufferIn index left) bufferOut := by
  induction left generalizing index bufferOut with
  | zero => rfl
  | succ left ih =>
    unfold wideLoop asciiLoop
    split_ifs with hzero
    · rfl
    · exact bind_congr_ok fun bufferOut _ => ih bufferOut

theorem asciiLoop_ne_zero : ∀ c ∈ asciiLoop bufferIn index left, c ≠ 0 := by
  induction left generalizing index with
  | zero => exact List.forall_mem_nil _
  | succ left ih =>
    unfold asciiLoop
    split_ifs with hzero
    · exact List.forall_mem_nil _
    · exact List.forall_mem_cons.mpr ⟨widen_ne_zero hzero, ih⟩

/-- All the places are used exactly when there is no zero in them. -/
theorem length_asciiLoop_lt_iff : (asciiLoop bufferIn index left).length < left ↔
    ∃ i < left, bufferIn (index + i) = 0 := by
  induction left generalizing index with
  | zero => simp
  | succ left ih =>
    unfold asciiLoop
    split_ifs with hzero
    · exact iff_of_true (Nat.succ_pos left) ⟨0, Nat.succ_pos left, hzero⟩
    · rw [List.length_cons, Nat.add_lt_add_iff_right, ih]
      constructor
      · rintro ⟨i, hi, h⟩
        exact ⟨i + 1, Nat.succ_lt_succ hi, by rwa [Nat.add_comm i, ← Nat.add_assoc]⟩
      · rintro ⟨i, hi, h⟩
        cases i with
        | zero => exact absurd h hzero
        | succ i =>
          exact ⟨i, Nat.lt_of_succ_lt_succ hi, by rwa [Nat.add_assoc, Nat.add_comm 1]⟩

theorem short_iff : Short bufferIn ↔ (asciiToWide bufferIn 256).length < 256 := by
  unfold asciiToWide
  rw [length_asciiLoop_lt_iff]
  simp only [Nat.zero_add]
  rfl

theorem asciiToWideInto_eq_strcpy (bufferOut : Vector ℕ size) (bound : ℕ) :
    asciiToWideInto bufferOut bufferIn bound =
      strcpy .bufferOverflow (asciiToWide bufferIn bound) bufferOut := wideLoop_eq bufferOut

/-- What ascii_to_wide leaves in an array that has as many places as its bound. -/
theorem asciiToWideInto_eq (bufferOut : Vector ℕ size) (bufferIn : ℕ → UInt8) :
    (asciiToWideInto bufferOut bufferIn size).map text = (do
      require ((asciiToWide bufferIn size).length < size) .bufferOverflow
      return asciiToWide bufferIn size) := by
  rw [asciiToWideInto_eq_strcpy]
  by_cases hlt : (asciiToWide bufferIn size).length < size
  · obtain ⟨a, hcopy, htext⟩ := strcpy_of_lt (e := VolumeCalls.Fault.bufferOverflow)
      (a := bufferOut) hlt asciiLoop_ne_zero
    rw [hcopy, require_true hlt, ok_bind]
    exact congrArg Except.ok htext
  · have hfull : size ≤ 0 + (asciiToWide bufferIn size).length := by omega
    rw [require, if_neg hlt, strcpy, copyFrom_of_le hfull]
    rfl

/-- The system calls fill wideName so. -/
theorem wideName_eq (a : Vector ℕ 256) :
    VolumeCalls.wideName filename = (asciiToWideInto a (skipDot filename) 256).map text := by
  rw [asciiToWideInto_eq]
  rfl

/-- FatVolume_OpenHandle fills adjustedPath so. -/
theorem adjustedPath_eq (a : Vector ℕ 256) (hpath : ∀ c ∈ path, c ≠ 0) :
    (adjustedPath path a).map text = (do
      require ((slash :: path).length < 256) .bufferOverflow
      return slash :: path) := by
  obtain ⟨b, hcopy, htext⟩ := strcpy_of_lt (e := VolumeCalls.Fault.bufferOverflow) (a := a)
    (show [slash].length < 256 by decide) (by decide)
  have hlen : (text b).length = 1 := by rw [htext]; rfl
  unfold adjustedPath
  rw [hcopy, ok_bind]
  by_cases hlt : (slash :: path).length < 256
  · have hroom : (text b).length + path.length < 256 := by
      rw [List.length_cons] at hlt
      omega
    obtain ⟨a', hcat, htext'⟩ := strcat_of_lt (e := VolumeCalls.Fault.bufferOverflow) hroom hpath
    rw [hcat, require_true hlt, ok_bind]
    exact congrArg Except.ok (htext'.trans (by rw [htext]; rfl))
  · have hfull : 256 ≤ (text b).length + path.length := by
      rw [List.length_cons] at hlt
      omega
    rw [require, if_neg hlt, strcat_of_le hfull]
    rfl

end Arrays

section Volumes
variable {depth : ℕ} {devices : Devices} {xxh64 : List ℕ → ℕ} {s : System} {path : List ℕ}
  {filename : ℕ → UInt8} {handle offset size : ℕ}

theorem fatOpenHandle_avoids_iff {files : FileMapping.FileHandles}
    {fOpen : List ℕ → Option VolumeCalls.Contents} :
    Avoids .bufferOverflow (fatOpenHandle files fOpen handle path) ↔ path.length < 255 := by
  unfold fatOpenHandle
  rw [avoids_bind, avoids_require]
  constructor
  · rintro ⟨hlt, -⟩
    have hlt := hlt rfl
    rw [List.length_cons] at hlt
    omega
  · refine fun hlt => ⟨fun _ => by rw [List.length_cons]; omega, fun _ _ => ?_⟩
    cases VolumeCalls.freeSlot files with
    | none => exact avoids_pure _
    | some i =>
      dsimp only
      cases fOpen (slash :: path) with
      | none => exact avoids_pure _
      | some contents => exact avoids_pure _

theorem deviceEntry_avoids : Avoids .bufferOverflow (VolumeCalls.deviceEntry handle) :=
  avoids_require_bind (by decide) fun _ => avoids_require.mpr nofun

/-- FAT is the volume that copies a path. -/
theorem openHandle_avoids_iff (volume : Volume) :
    Avoids .bufferOverflow (volume.openHandle depth devices s handle path) ↔
      (volume = .fat → path.length < 255) := by
  cases volume with
  | fat =>
    unfold Volume.openHandle
    rw [avoids_bind, fatOpenHandle_avoids_iff]
    simp
  | device =>
    refine iff_of_true ?_ nofun
    unfold Volume.openHandle
    cases VolumeCalls.deviceSpecialPaths.findIdx? (VolumeCalls.SameText · path) with
    | none => exact avoids_ok _
    | some index =>
      refine avoids_bind.mpr ⟨deviceEntry_avoids, fun _ _ => ?_⟩
      refine avoids_bind.mpr ⟨avoids_mapError_of_ne nofun, fun _ _ => ?_⟩
      exact avoids_bind.mpr ⟨avoids_mapError_of_ne nofun, fun _ _ => avoids_pure _⟩
  | specialProc =>
    refine iff_of_true ?_ nofun
    unfold Volume.openHandle
    cases VolumeCalls.procSpecialPaths.findIdx? (VolumeCalls.SameText · path) with
    | none => exact avoids_ok _
    | some index => exact avoids_ok _
  | standardIo | cdrom => exact iff_of_true (avoids_ok _) nofun

/-- A path is looked up without a write past the end exactly if FAT gets no more than fits. -/
theorem volumeOpenHandle_avoids_iff :
    Avoids .bufferOverflow (s.volumeOpenHandle depth devices xxh64 0 path) ↔
      FatFits xxh64 s path := by
  unfold System.volumeOpenHandle FatFits
  rw [if_pos rfl, avoids_bind]
  have hpath : Avoids .bufferOverflow
      ((breakPath xxh64 s.volumeIndices path).mapError VolumeCalls.Fault.path) :=
    avoids_mapError_of_ne nofun
  rw [and_iff_right hpath, Prod.forall]
  simp only [mapError_eq_ok]
  refine forall_congr' fun handle => forall_congr' fun base => forall_congr' fun _ => ?_
  rw [VolumeCalls.volumeOf_implementation, ok_bind]
  cases s.implementation handle with
  | none => exact iff_of_true (avoids_pure _) nofun
  | some volume =>
    refine (openHandle_avoids_iff volume).trans ?_
    rw [Option.some.injEq]

theorem wideName_avoids_iff : Avoids .bufferOverflow (VolumeCalls.wideName filename) ↔
    Short (skipDot filename) := by
  unfold VolumeCalls.wideName
  rw [avoids_bind, avoids_require, short_iff]
  exact ⟨fun h => h.1 rfl, fun h => ⟨fun _ => h, fun _ _ => avoids_pure _⟩⟩

theorem openPath_avoids_iff :
    Avoids .bufferOverflow (openPath depth devices xxh64 filename s) ↔
      CallFits xxh64 s filename := by
  unfold openPath CallFits
  rw [avoids_bind, wideName_avoids_iff]
  refine and_congr_right fun hshort => ?_
  have hwide : VolumeCalls.wideName filename = .ok (asciiToWide (skipDot filename) 256) := by
    unfold VolumeCalls.wideName
    exact bind_eq_ok.mpr ⟨(), require_eq_ok.mpr (short_iff.mp hshort), rfl⟩
  rw [hwide]
  simp only [Except.ok.injEq, forall_eq', volumeOpenHandle_avoids_iff]

end Volumes

section Volumes
variable {devices : Devices} {s : System} {handle offset size : ℕ}

theorem fatFile_avoids : Avoids .bufferOverflow (VolumeCalls.fatFile handle s.fileHandles) := by
  refine avoids_require_bind (by decide) fun _ => ?_
  cases s.fileHandles (VolumeSystem.FileHandleMask.fileHandle handle) with
  | none => exact avoids_error.mpr (by decide)
  | some fil => exact avoids_pure _

theorem volumeGetSize_avoids : Avoids .bufferOverflow (s.volumeGetSize handle) := by
  unfold System.volumeGetSize
  rw [VolumeCalls.volumeOf_implementation, ok_bind]
  cases s.implementation handle with
  | none => exact avoids_pure _
  | some volume =>
    cases volume with
    | standardIo => exact avoids_ok _
    | specialProc | cdrom => exact avoids_error.mpr (by decide)
    | device => exact avoids_bind.mpr ⟨deviceEntry_avoids, fun _ _ => avoids_pure _⟩
    | fat => exact avoids_bind.mpr ⟨fatFile_avoids, fun _ _ => avoids_pure _⟩

theorem volumeRead_avoids : Avoids .bufferOverflow (s.volumeRead devices handle offset size) := by
  unfold System.volumeRead
  rw [VolumeCalls.volumeOf_implementation, ok_bind]
  cases s.implementation handle with
  | none => exact avoids_pure _
  | some volume =>
    cases volume with
    | standardIo =>
      simp only [Option.map_some, Volume.read]
      split_ifs
      · exact avoids_ok _
      · exact avoids_error.mpr (by decide)
      · exact avoids_ok _
    | specialProc =>
      exact avoids_require_bind (by decide) fun _ =>
        avoids_require_bind (by decide) fun _ => avoids_pure _
    | cdrom => exact avoids_ok _
    | device => exact avoids_bind.mpr ⟨deviceEntry_avoids, fun _ _ => avoids_pure _⟩
    | fat =>
      refine avoids_bind.mpr ⟨avoids_mapError_of_ne fun fault heq => ?_, fun _ _ => avoids_pure _⟩
      cases fault <;> cases heq

theorem volumeCloseHandle_avoids {depth : ℕ} :
    Avoids .bufferOverflow (s.volumeCloseHandle depth handle) := by
  unfold System.volumeCloseHandle
  rw [VolumeCalls.volumeOf_implementation, ok_bind]
  cases s.implementation handle with
  | none => exact avoids_pure _
  | some volume =>
    cases volume with
    | standardIo | specialProc | cdrom => exact avoids_ok _
    | device =>
      refine avoids_bind.mpr ⟨deviceEntry_avoids, fun _ _ => ?_⟩
      exact avoids_bind.mpr ⟨avoids_mapError_of_ne nofun, fun _ _ => avoids_pure _⟩
    | fat =>
      refine avoids_bind.mpr ⟨?_, fun _ _ => avoids_pure _⟩
      exact avoids_require_bind (by decide) fun _ => avoids_pure _

end Volumes

/-- The fault of a write past the end, in the runs of programs. -/
abbrev overflow : ProgramRun.Fault := .volume .bufferOverflow

section Execve
variable {depth : ℕ} {devices : Devices} {xxh64 : List ℕ → ℕ} {stale : ℕ → Name} {s : State}
  {programName path : Name} {handle size : ℕ}

theorem avoids_volume {α : Type} {x : Except VolumeCalls.Fault α} :
    Avoids overflow (x.mapError .volume) ↔ Avoids .bufferOverflow x :=
  avoids_mapError fun _ _ h => ProgramRun.Fault.volume.inj h

theorem virtualAlloc_avoids : Avoids overflow (s.virtualAlloc depth size) :=
  avoids_bind.mpr ⟨avoids_mapError_of_ne nofun, fun _ _ =>
    avoids_require_bind nofun fun _ => avoids_pure _⟩

theorem rpMalloc_avoids : Avoids overflow (s.rpMalloc depth) := by
  unfold State.rpMalloc
  cases s.grants with
  | nil => exact avoids_error.mpr nofun
  | cons grant grants =>
    refine avoids_bind.mpr ⟨avoids_foldlM fun s size => ?_, fun _ _ => avoids_pure _⟩
    exact avoids_bind.mpr ⟨avoids_mapError_of_ne nofun, fun _ _ =>
      avoids_require_bind nofun fun _ => avoids_pure _⟩

theorem lookup_avoids {heap : ℕ → Option ProgramRun.ElfBinary} {entries : List ℕ} :
    Avoids overflow (State.lookup stale heap programName entries) := by
  induction entries with
  | nil => exact avoids_ok _
  | cons p entries ih =>
    unfold State.lookup
    cases heap p with
    | none =>
      dsimp only
      split_ifs
      · exact avoids_error.mpr nofun
      · exact ih
    | some binary =>
      dsimp only
      split_ifs
      · exact avoids_ok _
      · exact ih

theorem readFile_avoids :
    Avoids overflow (readFile depth devices stale programName handle s) := by
  unfold readFile
  split_ifs
  · refine avoids_bind.mpr ⟨avoids_volume.mpr volumeGetSize_avoids, fun _ _ => ?_⟩
    refine avoids_bind.mpr ⟨virtualAlloc_avoids, fun _ _ => ?_⟩
    refine avoids_bind.mpr ⟨avoids_volume.mpr volumeRead_avoids, fun _ _ => ?_⟩
    refine avoids_bind.mpr ⟨lookup_avoids, fun existing _ => ?_⟩
    cases existing with
    | some p => exact avoids_pure _
    | none => exact avoids_bind.mpr ⟨rpMalloc_avoids, fun _ _ => avoids_pure _⟩
  · exact avoids_ok _

theorem openFile_avoids_iff :
    Avoids overflow (openFile depth devices xxh64 path s) ↔ FatFits xxh64 s.system path := by
  unfold openFile
  rw [avoids_bind, avoids_volume, volumeOpenHandle_avoids_iff]
  refine and_iff_left fun _ _ => ?_
  exact avoids_bind.mpr ⟨rpMalloc_avoids, fun _ _ => avoids_pure _⟩

theorem openProgram_avoids_iff :
    Avoids overflow (openProgram depth devices xxh64 stale programName s) ↔
      FatFits xxh64 s.system programName := by
  unfold openProgram
  rw [avoids_bind, openFile_avoids_iff]
  exact and_iff_left fun _ _ => readFile_avoids

theorem strcpy_avoids_iff {size : ℕ} {a : Vector ℕ size} :
    Avoids overflow ((strcpy .bufferOverflow path a).mapError .volume) ↔ path.length < size := by
  rw [avoids_volume]
  by_cases hlt : 0 + path.length < size
  · obtain ⟨a', hcopy, -⟩ := copyFrom_of_lt (e := VolumeCalls.Fault.bufferOverflow) (a := a) hlt
    rw [strcpy, hcopy]
    exact iff_of_true (avoids_ok _) (by omega)
  · rw [strcpy, copyFrom_of_le (Nat.le_of_not_lt hlt)]
    exact iff_of_false (fun h => h rfl) (by omega)

theorem nameBinary_avoids_iff {reached : Except ProgramRun.Fault (Option State)} :
    Avoids overflow (nameBinary programName reached) ↔
      Avoids overflow reached ∧ NameFits programName reached := by
  unfold nameBinary NameFits
  rw [avoids_bind]
  refine and_congr_right fun _ => ?_
  constructor
  · intro h s hs
    exact strcpy_avoids_iff.mp (avoids_bind.mp (h (some s) hs)).1
  · intro h reached' hreached
    cases reached' with
    | none => exact avoids_pure _
    | some s =>
      exact avoids_bind.mpr ⟨strcpy_avoids_iff.mpr (h s hreached), fun _ _ => avoids_pure _⟩

theorem openInterpreter_avoids_iff {interpreterName : Vector ℕ 256} {interpreter : ℕ → UInt8} :
    Avoids overflow (openInterpreter depth devices xxh64 interpreterName interpreter s) ↔
      Short interpreter ∧ FatFits xxh64 s.system (asciiToWide interpreter 256) := by
  unfold openInterpreter
  rw [avoids_bind, asciiToWideInto_eq_strcpy, strcpy_avoids_iff, ← short_iff]
  refine and_congr_right fun hshort => ?_
  obtain ⟨a, hcopy, htext⟩ := strcpy_of_lt (e := VolumeCalls.Fault.bufferOverflow)
    (a := interpreterName) (short_iff.mp hshort) asciiLoop_ne_zero
  rw [hcopy]
  constructor
  · intro h
    have hopen := openFile_avoids_iff.mp (avoids_bind.mp (h a rfl)).1
    rwa [htext] at hopen
  · intro h a' ha'
    cases ha'
    refine avoids_bind.mpr ⟨openFile_avoids_iff.mpr ?_, fun _ _ => avoids_pure _⟩
    rwa [htext]

/-- The interpreter is loaded by the name that its section has. -/
theorem openInterpreter_text {interpreterName name : Vector ℕ 256} {interpreter : ℕ → UInt8}
    {s' : State} (h : openInterpreter depth devices xxh64 interpreterName interpreter s =
      .ok ((name, handle), s')) : text name = asciiToWide interpreter 256 := by
  obtain ⟨name', hwide, h⟩ := bind_eq_ok.mp h
  obtain ⟨⟨handle', s1⟩, -, h⟩ := bind_eq_ok.mp h
  cases h
  have htext := asciiToWideInto_eq interpreterName interpreter
  rw [mapError_eq_ok.mp hwide] at htext
  obtain ⟨-, -, heq⟩ := bind_eq_ok.mp htext.symm
  exact (Except.ok.inj heq).symm

end Execve

section Calls
variable {depth : ℕ} {devices : Devices} {xxh64 : List ℕ → ℕ} {s : System}
  {filename : ℕ → UInt8}

theorem sysOpen_avoids_iff : Avoids .bufferOverflow (sysOpen depth devices xxh64 filename s) ↔
    CallFits xxh64 s filename := by
  unfold sysOpen
  rw [avoids_bind, openPath_avoids_iff]
  refine and_iff_left fun _ _ => ?_
  dsimp only
  split_ifs <;> exact avoids_pure _

theorem sysOpenat_avoids_iff : Avoids .bufferOverflow (sysOpenat depth devices xxh64 filename s) ↔
    CallFits xxh64 s filename := by
  unfold sysOpenat
  rw [avoids_bind, openPath_avoids_iff]
  refine and_iff_left fun _ _ => ?_
  dsimp only
  split_ifs <;> exact avoids_pure _

theorem sysAccess_avoids_iff : Avoids .bufferOverflow (sysAccess depth devices xxh64 filename s) ↔
    CallFits xxh64 s filename := by
  unfold sysAccess
  rw [avoids_bind, openPath_avoids_iff]
  refine and_iff_left fun _ _ => ?_
  dsimp only
  split_ifs
  · exact avoids_pure _
  · exact avoids_bind.mpr ⟨volumeCloseHandle_avoids, fun _ _ => avoids_pure _⟩

end Calls

/-- When no array on the way of a path is written past its end: for the system calls on
paths, for sys_execve, for the name of an interpreter, and when the interpreter is loaded
by that name. -/
theorem paths_fit_iff (depth : ℕ) (devices : Devices) (xxh64 : List ℕ → ℕ) (stale : ℕ → Name) :
    (∀ filename s, Avoids .bufferOverflow (sysOpen depth devices xxh64 filename s) ↔
      CallFits xxh64 s filename) ∧
    (∀ filename s, Avoids .bufferOverflow (sysOpenat depth devices xxh64 filename s) ↔
      CallFits xxh64 s filename) ∧
    (∀ filename s, Avoids .bufferOverflow (sysAccess depth devices xxh64 filename s) ↔
      CallFits xxh64 s filename) ∧
    (∀ filename s, Avoids overflow (execve depth devices xxh64 stale filename s) ↔
      FatFits xxh64 s.system (execveName filename) ∧ NameFits (execveName filename)
        (openProgram depth devices xxh64 stale (execveName filename) s)) ∧
    (∀ interpreterName interpreter s,
      Avoids overflow (openInterpreter depth devices xxh64 interpreterName interpreter s) ↔
        Short interpreter ∧ FatFits xxh64 s.system (asciiToWide interpreter 256)) ∧
    (∀ interpreterName handle s,
      Avoids overflow (loadInterpreter depth devices stale interpreterName handle s) ↔
        NameFits (text interpreterName)
          (readFile depth devices stale (text interpreterName) handle s)) := by
  refine ⟨fun _ _ => sysOpen_avoids_iff, fun _ _ => sysOpenat_avoids_iff,
    fun _ _ => sysAccess_avoids_iff, fun filename s => ?_,
    fun _ _ _ => openInterpreter_avoids_iff, fun interpreterName handle s => ?_⟩
  · unfold execve
    rw [nameBinary_avoids_iff, openProgram_avoids_iff]
  · unfold loadInterpreter
    rw [nameBinary_avoids_iff]
    exact and_iff_right readFile_avoids

/-- A path of 256 letters. -/
def longName (i : ℕ) : UInt8 := if i < 256 then 0x61 else 0

/-- sys_open writes the zero of it behind wideName. -/
theorem open_long_name_overflows : ¬ Avoids .bufferOverflow
    (sysOpen 0 VolumeCalls.noDevices (fun _ => 1) longName VolumeCalls.lettersOpen) := by
  rw [sysOpen_avoids_iff]
  rintro ⟨⟨i, hi, hzero⟩, -⟩
  have hskip : skipDot longName = longName := if_neg (by decide)
  rw [hskip, longName, if_pos hi] at hzero
  exact absurd hzero (by decide)

end Enkel.PathArrays
