import Enkel.FileMapping
import Enkel.PathLookup
import Enkel.StandardStreams

/-!
The volumes of the kernel and the system calls on descriptors. A handle selects a
volume by its bit fields; the volume is a table of functions, some of them null, and
the streams and the devices select again by the handle. What the hardware delivers is
given by `Devices`.
-/
namespace Enkel.VolumeCalls

open Outcome Paging VolumeSystem FileHandleMask StandardStreams
open FileMapping (Fil FileHandles currentOffset maxFileHandles)

inductive Volume
  | standardIo
  | specialProc
  | device
  | fat
  | cdrom
deriving DecidableEq, Repr

/-- The arrays that are indexed by parts of a handle. -/
inductive Table
  | volumeIndices
  | volumes
  | stdioReadFunctions
  | stdioWriteFunctions
  | specialPaths
  | fileHandles
deriving DecidableEq, Repr

/-- How a call can stop. -/
inductive Fault
  | nullFunction
  | nullFil
  /-- The entry at the end of SpecialPaths, which has no data and no volume, is used. -/
  | nullEntry
  | outOfRange (table : Table)
  /-- A path is longer than the array for it. -/
  | bufferOverflow
  | assertion (message : String)
  /-- The loop that prints does not end. -/
  | endless
  | memory (fault : Enkel.Fault)
  | path (fault : VolumeSystem.Fault)
deriving DecidableEq, Repr

/-- The faults of FatVolume_Read. -/
def Fault.ofVolumeFault : FileMapping.VolumeFault → Fault
  | .assertion message => .assertion message
  | .handleOutOfRange => .outOfRange .fileHandles
  | .nullPointer => .nullFil

def einval : ℕ := 2 ^ 64 - 22
def enoent : ℕ := 2 ^ 64 - 2

/-- The contents of a file of FatFs. -/
abbrev Contents := { contents : List UInt8 // contents.length < 2 ^ 32 }

theorem contents_lt (contents : Contents) : contents.val.length < 2 ^ 32 := contents.property

theorem zero_le_contents (contents : Contents) : 0 ≤ contents.val.length := Nat.zero_le _

/-- What f_open finds, what the keyboard and the CD drive deliver, the string that
starts so many bytes after the one of SpecialPaths, and the framebuffer. -/
structure Devices where
  fOpen : List ℕ → Option Contents
  readInput : (scancode : Bool) → (size : ℕ) → { bytes : List UInt8 // bytes.length ≤ size }
  specialProcData : (offset : ℕ) → List UInt8
  cdromRead : (cdrom offset size : ℕ) → { bytes : List UInt8 // bytes.length ≤ size }
  framebufferBase : ℕ
  framebufferByteSize : ℕ

structure System where
  volumeIndices : VolumeIndices Volume
  fileHandles : FileHandles
  memory : KernelMemory
  frameBufferMemory : ℕ
  frameBufferByteSize : ℕ

/-- What OpenHandle returns, and whether a file was opened. -/
inductive Opened
  | file (handle : ℕ)
  | nothing (value : ℕ)
deriving DecidableEq, Repr

def Opened.value : Opened → ℕ
  | file handle => handle
  | nothing value => value

def units (s : String) : List ℕ := s.toList.map Char.toNat

def toLower (char : ℕ) : ℕ := if 0x41 ≤ char ∧ char ≤ 0x5A then char + 0x20 else char

/-- The strings that stricmp takes for equal. -/
def SameText (a b : List ℕ) : Prop := a.map toLower = b.map toLower

instance (a b : List ℕ) : Decidable (SameText a b) := inferInstanceAs (Decidable (_ = _))

section Framebuffer
variable (depth : ℕ) (devices : Devices) (s : System)

/-- AlignSize of FrameBufferWidth, FrameBufferHeight and FrameBufferBytesPerPixel. -/
def frameBufferAllocation : ℕ := alignSize (640 * 4 * (480 * 4) * 4) pageSize

def framebufferOpenHandle (volumeHandle : ℕ) : Except Fault (Opened × System) := do
  let (address, memory) ←
    (s.memory.virtualAlloc depth frameBufferAllocation .user pageFlagsNone).mapError .memory
  let memory ← (memory.virtualProtect depth devices.framebufferBase devices.framebufferByteSize
    .readWrite pageFlagsNone .user).mapError .memory
  return (.file (setFileHandle 0 volumeHandle),
    { s with
      memory := memory
      frameBufferMemory := address
      frameBufferByteSize := frameBufferAllocation })

def framebufferCloseHandle : Except Fault System := do
  let memory ←
    (s.memory.virtualFree depth s.frameBufferMemory s.frameBufferByteSize).mapError .memory
  return { s with
    memory := memory
    frameBufferMemory := 0 }

/-- FBIOGET_VSCREENINFO and FBIOGET_FSCREENINFO are answered. -/
def framebufferCommand (command : ℕ) : ℕ :=
  if command = 0x4600 ∨ command = 0x4602 then 0 else einval

end Framebuffer

/-- The entry of SpecialPaths for a handle of the devices; there is one before the
null entry. -/
def deviceEntry (handle : ℕ) : Except Fault Unit := do
  require (fileHandle handle < 2) (.outOfRange .specialPaths)
  require (fileHandle handle = 0) .nullEntry

/-- The file of a handle of FAT. -/
def fatFile (handle : ℕ) (files : FileHandles) : Except Fault Fil := do
  require (fileHandle handle < maxFileHandles) (.outOfRange .fileHandles)
  match files (fileHandle handle) with
  | none => throw .nullFil
  | some fil => return fil

section Fat
variable (handle : ℕ) (files : FileHandles)

/-- A number as the integer of 64 bits with a sign, and back. -/
def signed64 (x : ℕ) : ℤ := if x % 2 ^ 64 < 2 ^ 63 then x % 2 ^ 64 else x % 2 ^ 64 - 2 ^ 64

def unsigned64 (x : ℤ) : ℕ := (x % 2 ^ 64).toNat

def signed32 (x : ℕ) : ℤ := if x % 2 ^ 32 < 2 ^ 31 then x % 2 ^ 32 else x % 2 ^ 32 - 2 ^ 32

/-- The first null entry of FileHandles. -/
def freeSlot : Option ℕ := (List.range maxFileHandles).find? fun i => (files i).isNone

/-- FatVolume_OpenHandle. The path is copied behind a slash into 256 characters. -/
def fatOpenHandle (fOpen : List ℕ → Option Contents) (volumeHandle : ℕ) (path : List ℕ) :
    Except Fault (Opened × FileHandles) := do
  let adjustedPath := slash :: path
  require (adjustedPath.length < 256) .bufferOverflow
  match freeSlot files with
  | none => return (.nothing 0, files)
  | some i =>
    match fOpen adjustedPath with
    | none => return (.nothing 0, files)
    | some contents =>
      let fil := ⟨contents.val, 0, contents_lt contents, zero_le_contents contents⟩
      return (.file (setFileHandle i volumeHandle), Function.update files i (some fil))

def fatCloseHandle : Except Fault FileHandles := do
  require (fileHandle handle < maxFileHandles) (.outOfRange .fileHandles)
  return Function.update files (fileHandle handle) none

/-- FatVolume_Write. The files are open for reading: f_write refuses. -/
def fatVolumeWrite (offset size : ℕ) : Except Fault (ℕ × FileHandles) :=
  if size = 0 then
    .ok (0, files)
  else do
    let fil ← fatFile handle files
    let tell := fil.fTell
    require (offset ≠ currentOffset → offset < 2 ^ 63) (.assertion "Invalid offset")
    let fil := if offset ≠ currentOffset then fil.fLseek offset else fil
    let fil := if offset ≠ currentOffset then fil.fLseek tell else fil
    return (0, Function.update files (fileHandle handle) (some fil))

inductive SeekMode
  | set
  | current
  | «end»
deriving DecidableEq, Repr

/-- FatVolume_Seek: what is returned, and the file after the seek. -/
def seekFile (fil : Fil) (offset : ℤ) : SeekMode → ℕ × Fil
  | .set => ((fil.fLseek (unsigned64 offset)).fTell, fil.fLseek (unsigned64 offset))
  | .current =>
    let current : ℤ := fil.fTell
    (unsigned64 (current + offset), fil.fLseek (unsigned64 (offset + current)))
  | .end =>
    let size : ℤ := fil.fSize
    (unsigned64 (size - offset), fil.fLseek (unsigned64 (size - offset)))

def fatVolumeSeek (offset : ℤ) (origin : SeekMode) : Except Fault (ℕ × FileHandles) := do
  let fil ← fatFile handle files
  let (returned, fil) := seekFile fil offset origin
  return (returned, Function.update files (fileHandle handle) (some fil))

end Fat

/-- The entries of SpecialPaths of the two volumes, before the null entry. -/
def procSpecialPaths : List (List ℕ) := [units "/sys/kernel/osrelease"]

def deviceSpecialPaths : List (List ℕ) := [units "/fb0"]

section Volumes
variable (depth : ℕ) (devices : Devices) (s : System)

def Volume.openHandle (volumeHandle : ℕ) (path : List ℕ) :
    Volume → Except Fault (Opened × System)
  | standardIo => .ok (.file (if path.head? = some 0x6B then 3 else 0), s)
  | specialProc =>
    match procSpecialPaths.findIdx? (SameText · path) with
    | none => .ok (.nothing enoent, s)
    | some index => .ok (.file (setFileHandle index volumeHandle), s)
  | device =>
    match deviceSpecialPaths.findIdx? (SameText · path) with
    | none => .ok (.nothing enoent, s)
    | some index => do
      let handle := setFileHandle index volumeHandle
      deviceEntry handle
      framebufferOpenHandle depth devices s handle
  | fat => do
    let (opened, files) ← fatOpenHandle s.fileHandles devices.fOpen volumeHandle path
    return (opened, { s with fileHandles := files })
  | cdrom => .ok (.file volumeHandle, s)

def Volume.closeHandle (handle : ℕ) : Volume → Except Fault System
  | standardIo | specialProc | cdrom => .ok s
  | device => do
    deviceEntry handle
    framebufferCloseHandle depth s
  | fat => do
    let files ← fatCloseHandle handle s.fileHandles
    return { s with fileHandles := files }

/-- Read, with the bytes that it delivers. -/
def Volume.read (context handle offset size : ℕ) :
    Volume → Except Fault (ℕ × List UInt8 × System)
  | standardIo =>
    if handle < 4 then
      if handle = 0 ∨ handle = 3 then
        let bytes := devices.readInput (decide (handle ≠ 0)) size
        .ok (bytes.val.length, bytes, s)
      else
        .error .nullFunction
    else
      .ok (2 ^ 64 - 1, [], s)
  | specialProc => do
    require (fileHandle handle < 2) (.outOfRange .specialPaths)
    require (fileHandle handle = 0) .nullEntry
    let bytes := (devices.specialProcData offset).take size
    return (bytes.length, bytes, s)
  | device => do
    deviceEntry handle
    return (0, [], s)
  | fat => do
    let (bytes, files) ← (FileMapping.fatVolumeRead handle offset size s.fileHandles).mapError
      Fault.ofVolumeFault
    return (bytes.length, bytes, { s with fileHandles := files })
  | cdrom =>
    let bytes := devices.cdromRead context offset size
    .ok (bytes.val.length, bytes, s)

/-- The bound on the turns of the loop is enough if any bound is. -/
def standardWrite (write : VolumeWrite) (buffer : ℕ → UInt8) (size : ℕ) :
    Except Fault (ℕ × List ConsoleCall) :=
  match write size buffer size with
  | none => .error .endless
  | some (calls, returned) => .ok (returned, calls)

/-- Write, with the calls of the console. -/
def Volume.write (handle offset : ℕ) (buffer : ℕ → UInt8) (size : ℕ) :
    Volume → Except Fault (ℕ × List ConsoleCall × System)
  | standardIo =>
    if handle < 4 then
      if handle = 1 then do
        let (returned, calls) ← standardWrite standardOutputVolumeWrite buffer size
        return (returned, calls, s)
      else if handle = 2 then do
        let (returned, calls) ← standardWrite standardErrorVolumeWrite buffer size
        return (returned, calls, s)
      else
        .error .nullFunction
    else
      .ok (2 ^ 64 - 1, [], s)
  | specialProc | cdrom => .error .nullFunction
  | device => do
    deviceEntry handle
    return (size, [], s)
  | fat => do
    let (returned, files) ← fatVolumeWrite handle s.fileHandles offset size
    return (returned, [], { s with fileHandles := files })

def Volume.getSize (handle : ℕ) : Volume → Except Fault ℕ
  | standardIo => .ok einval
  | specialProc | cdrom => .error .nullFunction
  | device => do
    deviceEntry handle
    return einval
  | fat => do
    let fil ← fatFile handle s.fileHandles
    return fil.fSize

/-- Seek; the CD drive has none. -/
def Volume.seek (handle : ℕ) (offset : ℤ) (origin : SeekMode) :
    Volume → Except Fault (ℕ × System)
  | standardIo | specialProc | cdrom => .ok (einval, s)
  | device => do
    deviceEntry handle
    return (einval, s)
  | fat => do
    let (returned, files) ← fatVolumeSeek handle s.fileHandles offset origin
    return (returned, { s with fileHandles := files })

/-- Command; only the devices and FAT have one. -/
def Volume.command (handle command : ℕ) : Volume → Except Fault ℕ
  | standardIo | specialProc | cdrom | fat => .ok einval
  | device => do
    deviceEntry handle
    return framebufferCommand command

end Volumes

namespace System

/-- GetVolumeIndex: the implementation that a handle selects, with its context. -/
def volumeOf (handle : ℕ) (s : System) : Except Fault (Option (Volume × ℕ)) := do
  require (segments handle < maxSegments) (.outOfRange .volumeIndices)
  require (volumeIndex handle < volumesPerPage) (.outOfRange .volumes)
  let slot := getVolumeIndex s.volumeIndices handle
  return slot.volumeImplementation.map fun volume => (volume, slot.context)

section Operations
variable (depth : ℕ) (devices : Devices)

/-- VolumeOpenHandle. Without a volume the path is looked up. -/
def volumeOpenHandle (xxh64 : List ℕ → ℕ) (volumeHandle : ℕ) (path : List ℕ) (s : System) :
    Except Fault (Opened × System) := do
  let (volumeHandle, base) ←
    if volumeHandle = 0 then (breakPath xxh64 s.volumeIndices path).mapError .path
    else pure (volumeHandle, 0)
  match ← s.volumeOf volumeHandle with
  | none => return (.nothing einval, s)
  | some (volume, _) => volume.openHandle depth devices s volumeHandle (path.drop base)

def volumeCloseHandle (handle : ℕ) (s : System) : Except Fault System := do
  match ← s.volumeOf handle with
  | none => return s
  | some (volume, _) => volume.closeHandle depth s handle

def volumeRead (handle offset size : ℕ) (s : System) :
    Except Fault (ℕ × List UInt8 × System) := do
  match ← s.volumeOf handle with
  | none => return (einval, [], s)
  | some (volume, context) => volume.read devices s context handle offset size

def volumeWrite (handle offset : ℕ) (buffer : ℕ → UInt8) (size : ℕ) (s : System) :
    Except Fault (ℕ × List ConsoleCall × System) := do
  match ← s.volumeOf handle with
  | none => return (einval, [], s)
  | some (volume, _) => volume.write s handle offset buffer size

def volumeGetSize (handle : ℕ) (s : System) : Except Fault ℕ := do
  match ← s.volumeOf handle with
  | none => return einval
  | some (volume, _) => volume.getSize s handle

def volumeSeek (handle : ℕ) (offset : ℤ) (origin : SeekMode) (s : System) :
    Except Fault (ℕ × System) := do
  match ← s.volumeOf handle with
  | none => return (einval, s)
  | some (volume, _) =>
    if handle ≠ 0 then volume.seek s handle offset origin else return (einval, s)

def volumeCommand (handle command : ℕ) (s : System) : Except Fault ℕ := do
  match ← s.volumeOf handle with
  | none => return einval
  | some (volume, _) => volume.command handle command

end Operations

end System

/-- A piece of memory that writev writes. -/
structure Iovec where
  iovBase : ℕ → UInt8
  iovLen : ℕ

/-- The system calls that take a descriptor, with their other arguments. -/
inductive Call
  | read (dataSize : ℕ)
  | pread64 (dataSize offset : ℕ)
  | write (data : ℕ → UInt8) (dataSize : ℕ)
  | writev (iov : List Iovec)
  | lseek (offset : ℤ) (origin : ℕ)
  | ioctl (cmd : ℕ)
  | newfstatat
  | close

/-- The value returned, and what is delivered or printed beside it. -/
structure Answer where
  returned : ℤ
  data : List UInt8
  printed : List ConsoleCall
deriving DecidableEq, Repr

/-- A descriptor of type int, as the handle it is converted to. -/
def ofInt (fd : ℕ) : ℕ := unsigned64 (signed32 fd)

section Calls
variable (depth : ℕ) (devices : Devices)

def sysRead (fileHandle dataSize : ℕ) (s : System) : Except Fault (Answer × System) := do
  let (returned, data, s) ← s.volumeRead devices (fileHandle % 2 ^ 64) currentOffset dataSize
  return (⟨signed32 returned, data, []⟩, s)

def sysPread64 (fileHandle dataSize offset : ℕ) (s : System) :
    Except Fault (Answer × System) := do
  let (returned, data, s) ← s.volumeRead devices (fileHandle % 2 ^ 64) offset dataSize
  return (⟨returned, data, []⟩, s)

def sysWrite (fileHandle : ℕ) (data : ℕ → UInt8) (dataSize : ℕ) (s : System) :
    Except Fault (Answer × System) := do
  let (returned, calls, s) ← s.volumeWrite (fileHandle % 2 ^ 64) currentOffset data dataSize
  return (⟨signed32 returned, [], calls⟩, s)

/-- The loop of sys_writev. -/
def writevLoop (handle : ℕ) : List Iovec → (total : ℕ) → List ConsoleCall → System →
    Except Fault (ℕ × List ConsoleCall × System)
  | [], total, printed, s => .ok (total, printed, s)
  | v :: iov, total, printed, s => do
    let (returned, calls, s) ← s.volumeWrite handle currentOffset v.iovBase v.iovLen
    writevLoop handle iov (add64 total returned) (printed ++ calls) s

def sysWritev (fileHandle : ℕ) (iov : List Iovec) (s : System) :
    Except Fault (Answer × System) := do
  let (total, calls, s) ← writevLoop (ofInt fileHandle) iov 0 [] s
  return (⟨total, [], calls⟩, s)

def seekMode : ℕ → Option SeekMode
  | 0 => some .set
  | 1 => some .current
  | 2 => some .end
  | _ => none

def sysLseek (fd : ℕ) (offset : ℤ) (origin : ℕ) (s : System) :
    Except Fault (Answer × System) :=
  match seekMode origin with
  | none => .ok (⟨-22, [], []⟩, s)
  | some mode => do
    let (returned, s) ← s.volumeSeek (fd % 2 ^ 32) offset mode
    return (⟨signed32 returned, [], []⟩, s)

def sysIoctl (fd cmd : ℕ) (s : System) : Except Fault (Answer × System) := do
  let returned ← s.volumeCommand (fd % 2 ^ 32) (cmd % 2 ^ 32)
  return (⟨signed32 returned, [], []⟩, s)

/-- sys_newfstatat returns an error of VolumeGetSize; st_size is what that returned. -/
def sysNewfstatat (dfd : ℕ) (s : System) : Except Fault (Answer × System) := do
  let size ← s.volumeGetSize (ofInt dfd)
  return (⟨if signed64 size < 0 then signed32 size else 0, [], []⟩, s)

def sysClose (fileHandle : ℕ) (s : System) : Except Fault (Answer × System) := do
  let s ← s.volumeCloseHandle depth (fileHandle % 2 ^ 64)
  return (⟨0, [], []⟩, s)

/-- A system call on a descriptor. -/
def call (fd : ℕ) (s : System) : Call → Except Fault (Answer × System)
  | .read dataSize => sysRead devices fd dataSize s
  | .pread64 dataSize offset => sysPread64 devices fd dataSize offset s
  | .write data dataSize => sysWrite fd data dataSize s
  | .writev iov => sysWritev fd iov s
  | .lseek offset origin => sysLseek fd offset origin s
  | .ioctl cmd => sysIoctl fd cmd s
  | .newfstatat => sysNewfstatat fd s
  | .close => sysClose depth fd s

end Calls

end Enkel.VolumeCalls
